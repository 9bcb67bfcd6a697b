import J1939.Lib.Buffer
import J1939.StringCodec

/-!
# Strings in a buffer

The encoder places the strings of a frame by their sizes modulo 256, copies each one
up to its first NUL and puts the terminator behind its full length. The decoder looks
for the first terminator. Which strings survive the two is decided here.
-/

namespace J1939

open Buffer SPNString

/-- The offset behind the last string. -/
def endOf : ℕ → List (List UInt8) → ℕ
  | offset, [] => offset
  | offset, v :: vs => endOf (offset + stringSize v) vs

/-- What encoding a string leaves in the buffer when it fits. -/
def writeString (buffer : List UInt8) (offset : ℕ) (v : List UInt8) : List UInt8 :=
  (writeBytes buffer offset (cString v)).set (offset + v.length) strTerminator

/-- The strings written one after the other, as far as they fit. -/
def encodeStrings (length : ℕ) : List UInt8 → ℕ → List (List UInt8) → Option (List UInt8)
  | buffer, _, [] => some buffer
  | buffer, offset, v :: vs =>
    if offset + v.length < length then
      encodeStrings length (writeString buffer offset v) (offset + stringSize v) vs
    else none

theorem encodeSpn_string_of_fits {length : ℕ} (buffer : List UInt8) {s : SPNString}
    (h : s.offset + s.value.length < length) :
    encodeSpn length buffer (.string s) = .ok (writeString buffer s.offset s.value) := by
  have hoffset : ¬s.offset ≥ length := by omega
  have hfits : ¬s.value.length ≥ length - s.offset := by omega
  exact (if_neg hoffset).trans (if_neg hfits)

theorem encodeSpn_string_of_not_fits {length : ℕ} (buffer : List UInt8) {s : SPNString}
    (h : ¬s.offset + s.value.length < length) :
    ∃ e, encodeSpn length buffer (.string s) = .error e := by
  by_cases hoffset : s.offset ≥ length
  · exact ⟨_, if_pos hoffset⟩
  · have hfits : s.value.length ≥ length - s.offset := by omega
    exact ⟨_, (if_neg hoffset).trans (if_pos hfits)⟩

theorem encodeSpns_settled {length offset : ℕ} {buffer : List UInt8} {spns : List SPN}
    (h : SettledFrom offset spns) :
    (encodeSpns length buffer spns).toOption =
      encodeStrings length buffer offset (spns.map SPN.text) := by
  induction spns generalizing buffer offset with
  | nil => rfl
  | cons spn spns ih =>
    obtain ⟨⟨s, rfl, rfl⟩, hrest⟩ := h
    rw [List.map_cons, encodeStrings, encodeSpns]
    by_cases hfits : s.offset + s.value.length < length
    · have hfits' : s.offset + (SPN.string s).text.length < length := hfits
      rw [encodeSpn_string_of_fits buffer hfits, if_pos hfits']
      exact ih hrest
    · have hfits' : ¬s.offset + (SPN.string s).text.length < length := hfits
      obtain ⟨e, he⟩ := encodeSpn_string_of_not_fits buffer hfits
      rw [he, if_neg hfits']
      rfl

section Writing

/-- The index of the first NUL, where `strcpy` stops. -/
def nulIndex (v : List UInt8) : ℕ := v.findIdx (· = 0)

theorem nulIndex_le_length (v : List UInt8) : nulIndex v ≤ v.length := List.findIdx_le_length

theorem nulIndex_le {v : List UInt8} {i : ℕ} (hi : i < v.length) (h : v.getD i 0 = 0) :
    nulIndex v ≤ i := by
  by_contra hlt
  have hnot := List.not_of_lt_findIdx (Nat.lt_of_not_le hlt)
  rw [List.getD_eq_getElem _ _ hi] at h
  simp [h] at hnot

theorem getD_nulIndex (v : List UInt8) : v.getD (nulIndex v) 0 = 0 := by
  by_cases hlt : nulIndex v < v.length
  · have hfound := List.findIdx_getElem (w := hlt)
    rw [List.getD_eq_getElem _ _ hlt]
    exact of_decide_eq_true hfound
  · rw [List.getD_eq_default _ _ (Nat.le_of_not_lt hlt)]

theorem cString_eq (v : List UInt8) : cString v = v.take (nulIndex v) ++ [0] := by
  rw [cString, List.takeWhile_eq_take_findIdx_not]
  simp only [ne_eq, decide_not, Bool.not_not]
  rfl

theorem length_cString (v : List UInt8) : (cString v).length = nulIndex v + 1 := by
  rw [cString_eq, List.length_append, List.length_take, List.length_singleton,
    Nat.min_eq_left (nulIndex_le_length v)]

/-- Up to the NUL the copy and the string agree. -/
theorem getD_cString {v : List UInt8} {i : ℕ} (h : i ≤ nulIndex v) :
    (cString v).getD i 0 = v.getD i 0 := by
  have hle := nulIndex_le_length v
  rw [cString_eq]
  rcases Nat.lt_or_eq_of_le h with hlt | rfl
  · rw [List.getD_append _ _ _ _ (by rw [List.length_take]; omega),
      List.getD_eq_getElem?_getD, List.getElem?_take_of_lt hlt, List.getD_eq_getElem?_getD]
  · rw [List.getD_append_right _ _ _ _ (by rw [List.length_take]; omega), List.length_take,
      Nat.min_eq_left hle, Nat.sub_self, getD_nulIndex]
    rfl

@[simp] theorem length_writeString (buffer : List UInt8) (offset : ℕ) (v : List UInt8) :
    (writeString buffer offset v).length = buffer.length := by
  rw [writeString, List.length_set, length_writeBytes]

/-- The bytes that writing a string sets. -/
theorem getD_writeString {buffer : List UInt8} {offset : ℕ} {v : List UInt8}
    (hfit : offset + v.length < buffer.length) (k : ℕ) :
    (writeString buffer offset v).getD k 0 =
      if k = offset + v.length then strTerminator
      else if offset ≤ k ∧ k ≤ offset + nulIndex v then v.getD (k - offset) 0
      else buffer.getD k 0 := by
  have hle := nulIndex_le_length v
  have hcopied : offset + (cString v).length ≤ buffer.length := by
    rw [length_cString]
    omega
  rw [writeString, List.getD_eq_getElem?_getD, List.getElem?_set, length_writeBytes,
    if_pos hfit]
  by_cases hend : offset + v.length = k
  · rw [if_pos hend, if_pos hend.symm]
    rfl
  · rw [if_neg hend, if_neg (Ne.symm hend), ← List.getD_eq_getElem?_getD,
      getD_writeBytes _ _ _ hcopied, length_cString]
    by_cases hin : offset ≤ k ∧ k ≤ offset + nulIndex v
    · rw [if_pos hin, if_pos (by omega), getD_cString (by omega)]
    · rw [if_neg hin, if_neg (by omega)]

/-- The strings behind an offset leave the bytes before it alone. -/
theorem encodeStrings_eq_some {length offset : ℕ} {buffer out : List UInt8}
    {vs : List (List UInt8)} (hlength : buffer.length = length)
    (h : encodeStrings length buffer offset vs = some out) :
    out.length = length ∧ ∀ k < offset, out.getD k 0 = buffer.getD k 0 := by
  induction vs generalizing buffer offset with
  | nil =>
    cases h
    exact ⟨hlength, fun _ _ => rfl⟩
  | cons v vs ih =>
    rw [encodeStrings] at h
    split_ifs at h with hfit
    obtain ⟨hout, hbefore⟩ := ih (by rw [length_writeString, hlength]) h
    refine ⟨hout, fun k hk => ?_⟩
    rw [hbefore k (by omega), getD_writeString (by omega), if_neg (by omega),
      if_neg (by omega)]

end Writing

section Reading

/-- When a string is read: its terminator is the first one, and it is ASCII. -/
theorem readString_eq_some {mem : Memory} {n : ℕ} {v : List UInt8} :
    readString mem n = some v ↔
      v.length < n ∧ mem v.length = strTerminator ∧ mem.slice 0 v.length = v ∧
        strTerminator ∉ v ∧ v.all isAscii = true := by
  rw [readString, Option.bind_eq_some_iff]
  constructor
  · rintro ⟨k, hfind, hv⟩
    rw [Option.ite_none_right_eq_some, Option.some.injEq] at hv
    obtain ⟨hascii, rfl⟩ := hv
    obtain ⟨hk, hterminator, hbefore⟩ := findByte_eq_some.mp hfind
    rw [Memory.length_slice]
    refine ⟨hk, hterminator, rfl, fun hmem => ?_, hascii⟩
    rw [Memory.slice, List.mem_map] at hmem
    obtain ⟨j, hj, hc⟩ := hmem
    exact hbefore j (List.mem_range.mp hj) (by rw [← hc, Nat.zero_add])
  · rintro ⟨hlt, hterminator, hslice, hnot, hascii⟩
    refine ⟨v.length, findByte_eq_some.mpr ⟨hlt, hterminator, fun j hj hc => hnot ?_⟩, ?_⟩
    · rw [← hslice, Memory.slice, List.mem_map]
      exact ⟨j, List.mem_range.mpr hj, by rw [Nat.zero_add, hc]⟩
    · rw [hslice, if_pos hascii]

theorem readString_congr {mem mem' : Memory} {n : ℕ} (h : ∀ i < n, mem i = mem' i) :
    readString mem n = readString mem' n := by
  have hread : ∀ {a b : Memory}, (∀ i < n, a i = b i) → ∀ v, readString a n = some v →
      readString b n = some v := by
    intro a b hab v hv
    obtain ⟨hlt, hterminator, hslice, hrest⟩ := readString_eq_some.mp hv
    have hslice' : b.slice 0 v.length = a.slice 0 v.length :=
      Memory.slice_congr fun k hk => (hab _ (by omega)).symm
    rw [readString_eq_some, ← hab _ hlt, hslice']
    exact ⟨hlt, hterminator, hslice, hrest⟩
  ext v
  exact ⟨hread h v, hread (fun i hi => (h i hi).symm) v⟩

/-- The strings depend on the bytes of the payload only. -/
theorem parseStrings_congr {mem mem' : Memory} {length : ℕ} (h : ∀ i < length, mem i = mem' i)
    (offset n : ℕ) : parseStrings mem length offset n = parseStrings mem' length offset n := by
  induction n generalizing offset with
  | zero => rfl
  | succ n ih =>
    have hread : readString (fun i => mem (offset + i)) (length - offset) =
        readString (fun i => mem' (offset + i)) (length - offset) :=
      readString_congr fun i hi => h _ (by omega)
    simp only [parseStrings, hread, ih]

/-- Behind the first characters of a string the rest of it is read. -/
theorem readString_drop {mem : Memory} {n d : ℕ} {v : List UInt8}
    (h : readString mem n = some v) (hd : d ≤ v.length) :
    readString (fun i => mem (d + i)) (n - d) = some (v.drop d) := by
  obtain ⟨hlt, hterminator, hslice, hnot, hascii⟩ := readString_eq_some.mp h
  rw [readString_eq_some, List.length_drop]
  refine ⟨by omega, ?_, ?_, fun hmem => hnot (List.mem_of_mem_drop hmem), ?_⟩
  · have hend : d + (v.length - d) = v.length := by omega
    rw [hend, hterminator]
  · conv_rhs => rw [← hslice]
    apply List.ext_getElem
    · simp
    · intro k hk hk'
      rw [Memory.slice_getElem, List.getElem_drop, Memory.slice_getElem]
      simp only [Nat.zero_add]
  · rw [List.all_eq_true] at hascii ⊢
    exact fun c hc => hascii c (List.mem_of_mem_drop hc)

theorem parseStrings_succ_eq_some {mem : Memory} {length offset n : ℕ} {v : List UInt8}
    {vs : List (List UInt8)} :
    parseStrings mem length offset (n + 1) = some (v :: vs) ↔
      readString (fun i => mem (offset + i)) (length - offset) = some v ∧
        parseStrings mem length (offset + stringSize v) n = some vs := by
  rw [parseStrings]
  constructor
  · intro h
    split_ifs at h
    obtain ⟨v', hread, hrest⟩ := Option.bind_eq_some_iff.mp h
    obtain ⟨vs', hparse, hcons⟩ := Option.bind_eq_some_iff.mp hrest
    cases hcons
    exact ⟨hread, hparse⟩
  · rintro ⟨hread, hparse⟩
    have hlt := (readString_eq_some.mp hread).1
    rw [if_neg (by omega), hread]
    simp [hparse]

/-- A string of size 0 modulo 256 is read again and again. -/
theorem parseStrings_replicate {mem : Memory} {length offset : ℕ} {w : List UInt8}
    (hsize : stringSize w = 0)
    (h : readString (fun i => mem (offset + i)) (length - offset) = some w) (n : ℕ) :
    parseStrings mem length offset n = some (List.replicate n w) := by
  induction n with
  | zero => rfl
  | succ n ih =>
    rw [List.replicate_succ, parseStrings_succ_eq_some, hsize]
    exact ⟨h, ih⟩

/-- A string is read back when its terminator is the first one and all of its
characters were copied. -/
theorem readString_iff_copied {length offset : ℕ} {out v : List UInt8} {beyond : Memory}
    {copied : ℕ → Prop} (hlength : out.length = length) (hfit : offset + v.length < length)
    (hascii : v.all isAscii = true)
    (hterminator : out.getD (offset + v.length) 0 = strTerminator)
    (hcopied : ∀ i < v.length, copied i → out.getD (offset + i) 0 = v.getD i 0)
    (hother : ∀ i < v.length, ¬copied i → out.getD (offset + i) 0 = 0xFF) :
    readString (fun i => Memory.ofList out beyond (offset + i)) (length - offset) = some v ↔
      strTerminator ∉ v ∧ ∀ i < v.length, copied i := by
  have hbyte : ∀ i ≤ v.length, Memory.ofList out beyond (offset + i) =
      out.getD (offset + i) 0 := by
    intro i hi
    rw [Memory.ofList_of_lt (by omega), List.getD_eq_getElem]
  have hslice : (Memory.slice (fun i => Memory.ofList out beyond (offset + i)) 0 v.length = v) ↔
      ∀ i < v.length, out.getD (offset + i) 0 = v.getD i 0 := by
    constructor
    · intro h i hi
      have hget : (Memory.slice (fun i => Memory.ofList out beyond (offset + i)) 0
          v.length).getD i 0 = v.getD i 0 := by rw [h]
      rw [List.getD_eq_getElem _ _ (by simpa using hi), Memory.slice_getElem, Nat.zero_add,
        hbyte i hi.le] at hget
      exact hget
    · intro h
      apply List.ext_getElem
      · simp
      · intro i hi hi'
        rw [Memory.slice_getElem, Nat.zero_add, hbyte i hi'.le, h i hi', List.getD_eq_getElem]
  rw [readString_eq_some, hslice, hbyte _ le_rfl]
  constructor
  · rintro ⟨-, -, hall, hnot, -⟩
    refine ⟨hnot, fun i hi => ?_⟩
    by_contra hmissing
    have hff := hall i hi
    rw [hother i hi hmissing, List.getD_eq_getElem _ _ hi] at hff
    have hchar := List.all_eq_true.mp hascii v[i] (List.getElem_mem hi)
    rw [← hff] at hchar
    exact absurd hchar (by decide)
  · rintro ⟨hnot, hall⟩
    exact ⟨by omega, hterminator, fun i hi => hcopied i hi (hall i hi), hnot, hascii⟩

end Reading

section Surviving

/-- All characters of a string are copied, when from index `d` on a copy of the rest
may have been written over it, if its NULs are the last character of one of the two. -/
theorem copied_iff {v : List UInt8} {d : ℕ} {again : Prop} :
    (∀ i < v.length, i ≤ nulIndex v ∨ again ∧ d ≤ i ∧ i - d ≤ nulIndex (v.drop d)) ↔
      ∀ i < v.length, v.getD i 0 = 0 → i + 1 = v.length ∨ again ∧ i + 1 = d := by
  constructor
  · intro h i hi hnul
    by_contra hne
    rw [not_or] at hne
    have hfirst := nulIndex_le hi hnul
    rcases h (i + 1) (by omega) with hlow | ⟨hagain, hd, hhigh⟩
    · omega
    · have hle : d ≤ i := by
        by_contra hlt
        exact hne.2 ⟨hagain, by omega⟩
      have hsecond : nulIndex (v.drop d) ≤ i - d := by
        refine nulIndex_le (by rw [List.length_drop]; omega) ?_
        rw [List.getD_eq_getElem?_getD, List.getElem?_drop, Nat.add_sub_cancel' hle,
          ← List.getD_eq_getElem?_getD]
        exact hnul
      omega
  · intro h i hi
    by_cases hlow : i ≤ nulIndex v
    · exact Or.inl hlow
    -- the first NUL is not the last character, so it ends right before the copy
    obtain hlast | ⟨hagain, hd⟩ := h (nulIndex v) (by omega) (getD_nulIndex v)
    · omega
    refine Or.inr ⟨hagain, by omega, ?_⟩
    by_contra hhigh
    have hsecond : v.getD (d + nulIndex (v.drop d)) 0 = 0 := by
      have hnul := getD_nulIndex (v.drop d)
      rw [List.getD_eq_getElem?_getD, List.getElem?_drop, ← List.getD_eq_getElem?_getD] at hnul
      exact hnul
    obtain hlast | ⟨-, hd'⟩ := h _ (by omega) hsecond <;> omega

/-- The strings that survive encoding and decoding, when the frame has a set length of
`length` and the first of them stands at the given offset. None of them contains the
terminator. Up to the first string of more than 254 characters a NUL stands at most at
the end. From that string on the `u8` sizes have wrapped: it fits into the set length,
the later strings are all copies of its tail, which lie on top of it, and a NUL stands
at most at its end or right before that tail. -/
def StringsSurvive (length : ℕ) : ℕ → List (List UInt8) → Prop
  | _, [] => True
  | offset, v :: vs =>
    strTerminator ∉ v ∧
      if v.length ≤ 254 then
        (∀ i < v.length, v.getD i 0 = 0 → i + 1 = v.length) ∧
          StringsSurvive length (offset + v.length + 1) vs
      else
        offset + v.length < length ∧ (∀ w ∈ vs, w = v.drop ((v.length + 1) % 256)) ∧
          ∀ i < v.length, v.getD i 0 = 0 →
            i + 1 = v.length ∨ vs ≠ [] ∧ i + 1 = (v.length + 1) % 256

theorem endOf_replicate (offset n : ℕ) {w : List UInt8} (h : stringSize w = 0) :
    endOf offset (List.replicate n w) = offset := by
  induction n with
  | zero => rfl
  | succ n ih =>
    rw [List.replicate_succ, endOf, h]
    exact ih

theorem le_endOf (offset : ℕ) (vs : List (List UInt8)) : offset ≤ endOf offset vs := by
  induction vs generalizing offset with
  | nil => exact le_rfl
  | cons v vs ih => exact (Nat.le_add_right ..).trans (ih _)

/-- Surviving strings begin within the payload. -/
theorem StringsSurvive.offset_le {length L offset : ℕ} {vs : List (List UInt8)}
    (h : StringsSurvive length offset vs) (hlength : length ≤ L)
    (hshort : (∀ v ∈ vs, v.length ≤ 254) → endOf offset vs ≤ L) : offset ≤ L := by
  induction vs generalizing offset with
  | nil => exact hshort (by simp)
  | cons v vs ih =>
    obtain ⟨-, hv⟩ := h
    by_cases hle : v.length ≤ 254
    · rw [if_pos hle] at hv
      have hnext := ih hv.2 fun hvs => by
        have hend := hshort (List.forall_mem_cons.mpr ⟨hle, hvs⟩)
        rw [endOf, stringSize_eq, Nat.mod_eq_of_lt (by omega)] at hend
        exact hend
      omega
    · rw [if_neg hle] at hv
      omega

/-- Copies of one string on top of each other are as good as one. -/
theorem encodeStrings_replicate {length offset : ℕ} {buffer w : List UInt8}
    (hlength : buffer.length = length) (hsize : stringSize w = 0)
    (hfit : offset + w.length < length) (n : ℕ) :
    ∃ out, encodeStrings length buffer offset (List.replicate n w) = some out ∧
      ∀ k, out.getD k 0 =
        if n = 0 then buffer.getD k 0 else (writeString buffer offset w).getD k 0 := by
  induction n generalizing buffer with
  | zero => exact ⟨buffer, rfl, fun _ => rfl⟩
  | succ n ih =>
    have hwritten : (writeString buffer offset w).length = length := by
      rw [length_writeString, hlength]
    obtain ⟨out, hout, hbytes⟩ := ih hwritten
    refine ⟨out, ?_, fun k => ?_⟩
    · rw [List.replicate_succ, encodeStrings, if_pos hfit, hsize]
      exact hout
    · rw [hbytes k, if_neg (Nat.succ_ne_zero n)]
      split_ifs with hn
      · rfl
      · rw [getD_writeString (by omega), getD_writeString (by omega)]
        split_ifs <;> rfl

/-- A string of at most 254 characters, on fresh bytes and with the later strings
behind it, is read back exactly when it survives on its own. -/
theorem readString_short_iff {length offset : ℕ} {buffer out v : List UInt8} {beyond : Memory}
    (hbuffer : buffer.length = length) (hlength : out.length = length)
    (hfresh : ∀ k, offset ≤ k → k < length → buffer.getD k 0 = 0xFF)
    (hfit : offset + v.length < length) (hascii : v.all isAscii = true)
    (hout : ∀ k < offset + v.length + 1,
      out.getD k 0 = (writeString buffer offset v).getD k 0) :
    readString (fun i => Memory.ofList out beyond (offset + i)) (length - offset) = some v ↔
      strTerminator ∉ v ∧ ∀ i < v.length, v.getD i 0 = 0 → i + 1 = v.length := by
  have hcovered := @copied_iff v 0 False
  simp only [false_and, or_false] at hcovered
  rw [← hcovered]
  refine readString_iff_copied hlength hfit hascii ?_ ?_ ?_
  · rw [hout _ (by omega), getD_writeString (by omega), if_pos rfl]
  · intro i hi hcopied
    rw [hout _ (by omega), getD_writeString (by omega), if_neg (by omega), if_pos (by omega),
      Nat.add_sub_cancel_left]
  · intro i hi hmissing
    rw [hout _ (by omega), getD_writeString (by omega), if_neg (by omega), if_neg (by omega),
      hfresh _ (by omega) (by omega)]

/-- A string of more than 254 characters, on fresh bytes and under `n` copies of its
tail, is read back exactly when its NULs are where the copies make up for them. -/
theorem readString_long_iff {length offset d n : ℕ} {buffer out v : List UInt8}
    {beyond : Memory} (hbuffer : buffer.length = length) (hlength : out.length = length)
    (hfresh : ∀ k, offset ≤ k → k < length → buffer.getD k 0 = 0xFF)
    (hfit : offset + v.length < length) (hascii : v.all isAscii = true) (hd : d ≤ v.length)
    (hout : ∀ k, out.getD k 0 = if n = 0 then (writeString buffer offset v).getD k 0
      else (writeString (writeString buffer offset v) (offset + d) (v.drop d)).getD k 0) :
    readString (fun i => Memory.ofList out beyond (offset + i)) (length - offset) = some v ↔
      strTerminator ∉ v ∧
        ∀ i < v.length, v.getD i 0 = 0 → i + 1 = v.length ∨ n ≠ 0 ∧ i + 1 = d := by
  rw [← copied_iff]
  have hdrop : (v.drop d).length = v.length - d := List.length_drop
  have htail : ∀ i, (v.drop d).getD i 0 = v.getD (d + i) 0 := fun i => by
    rw [List.getD_eq_getElem?_getD, List.getElem?_drop, ← List.getD_eq_getElem?_getD]
  have hwritten : (writeString buffer offset v).length = length := by
    rw [length_writeString, hbuffer]
  refine readString_iff_copied hlength hfit hascii ?_ ?_ ?_
  · rw [hout]
    split_ifs with hn
    · rw [getD_writeString (by omega), if_pos rfl]
    · rw [getD_writeString (by omega), if_pos (by omega)]
  · intro i hi hcopied
    rw [hout]
    split_ifs with hn
    · rw [getD_writeString (by omega), if_neg (by omega), if_pos (by omega),
        Nat.add_sub_cancel_left]
    · rw [getD_writeString (by omega), if_neg (by omega)]
      by_cases hin : offset + d ≤ offset + i ∧ offset + i ≤ offset + d + nulIndex (v.drop d)
      · rw [if_pos hin, htail]
        congr 1
        omega
      · rw [if_neg hin, getD_writeString (by omega), if_neg (by omega), if_pos (by omega),
          Nat.add_sub_cancel_left]
  · intro i hi hmissing
    have hfirst : ¬(offset ≤ offset + i ∧ offset + i ≤ offset + nulIndex v) := by omega
    rw [hout]
    split_ifs with hn
    · rw [getD_writeString (by omega), if_neg (by omega), if_neg hfirst,
        hfresh _ (by omega) (by omega)]
    · rw [getD_writeString (by omega), if_neg (by omega), if_neg (by omega),
        getD_writeString (by omega), if_neg (by omega), if_neg hfirst,
        hfresh _ (by omega) (by omega)]

/-- A string whose size wraps is read back with the next one beginning inside of it. -/
theorem restored_cons_of_long {length L offset : ℕ} {buffer v : List UInt8}
    {vs : List (List UInt8)} (beyond : Memory) (hbuffer : buffer.length = L)
    (hfresh : ∀ k, offset ≤ k → k < L → buffer.getD k 0 = 0xFF) (hascii : v.all isAscii = true)
    (hlong : ¬v.length ≤ 254) (hlength : length ≤ L)
    (hend : L ≤ max length (endOf offset (v :: vs))) :
    (∃ out, encodeStrings L buffer offset (v :: vs) = some out ∧
        parseStrings (Memory.ofList out beyond) L offset (v :: vs).length = some (v :: vs)) ↔
      StringsSurvive length offset (v :: vs) := by
  have hwritten : (writeString buffer offset v).length = L := by
    rw [length_writeString, hbuffer]
  rw [StringsSurvive, if_neg hlong, List.length_cons]
  have hd : stringSize v ≤ v.length := by
    rw [stringSize_eq]
    omega
  have htail : stringSize (v.drop (stringSize v)) = 0 := by
    rw [stringSize_eq, List.length_drop, stringSize_eq]
    omega
  have hdrop : (v.drop (stringSize v)).length = v.length - stringSize v := List.length_drop
  rw [← stringSize_eq]
  have hcopies : (∀ w ∈ vs, w = v.drop (stringSize v)) →
      vs = List.replicate vs.length (v.drop (stringSize v)) :=
    fun h => List.eq_replicate_iff.mpr ⟨rfl, h⟩
  have hhead : ∀ {out}, offset + v.length < L →
      (∀ k, out.getD k 0 =
        if vs.length = 0 then (writeString buffer offset v).getD k 0
        else (writeString (writeString buffer offset v) (offset + stringSize v)
          (v.drop (stringSize v))).getD k 0) → out.length = L →
      (readString (fun i => Memory.ofList out beyond (offset + i)) (L - offset) = some v ↔
        strTerminator ∉ v ∧ ∀ i < v.length, v.getD i 0 = 0 →
          i + 1 = v.length ∨ vs ≠ [] ∧ i + 1 = stringSize v) := by
    intro out hfit hbytes hlen
    rw [readString_long_iff hbuffer hlen hfresh hfit hascii hd hbytes]
    simp only [ne_eq, List.length_eq_zero_iff]
  have htailRead : ∀ {out},
      readString (fun i => Memory.ofList out beyond (offset + i)) (L - offset) = some v →
      readString (fun i => Memory.ofList out beyond (offset + stringSize v + i))
        (L - (offset + stringSize v)) = some (v.drop (stringSize v)) := by
    intro out hread
    have h := readString_drop hread hd
    simpa only [Nat.add_assoc, Nat.sub_sub] using h
  constructor
  · rintro ⟨out, hout, hparse⟩
    rw [encodeStrings] at hout
    split_ifs at hout with hfit
    rw [parseStrings_succ_eq_some] at hparse
    obtain ⟨hread, hrest⟩ := hparse
    have hagain := parseStrings_replicate htail (htailRead hread) vs.length
    have hvs : vs = List.replicate vs.length (v.drop (stringSize v)) :=
      Option.some.inj (hrest.symm.trans hagain)
    obtain ⟨out', hout', hbytes⟩ := @encodeStrings_replicate L (offset + stringSize v) _ _
      hwritten htail (by omega) vs.length
    rw [← hvs, hout, Option.some.injEq] at hout'
    subst hout'
    obtain ⟨hlen, -⟩ := encodeStrings_eq_some hwritten hout
    obtain ⟨hnot, hnul⟩ := (hhead hfit hbytes hlen).mp hread
    refine ⟨hnot, ?_, (List.eq_replicate_iff.mp hvs).2, hnul⟩
    rw [endOf, hvs, endOf_replicate _ _ htail] at hend
    omega
  · rintro ⟨hnot, hset, hall, hnul⟩
    have hfit : offset + v.length < L := by omega
    obtain ⟨out, hout, hbytes⟩ := @encodeStrings_replicate L (offset + stringSize v) _ _
      hwritten htail (by omega) vs.length
    rw [← hcopies hall] at hout
    obtain ⟨hlen, -⟩ := encodeStrings_eq_some hwritten hout
    have hread := (hhead hfit hbytes hlen).mpr ⟨hnot, hnul⟩
    refine ⟨out, ?_, ?_⟩
    · rw [encodeStrings, if_pos hfit]
      exact hout
    · rw [parseStrings_succ_eq_some]
      refine ⟨hread, ?_⟩
      have hagain := parseStrings_replicate htail (htailRead hread) vs.length
      rw [← hcopies hall] at hagain
      exact hagain

/-- Strings written to fresh bytes are read back exactly when they survive. -/
theorem strings_restored_iff {length L offset : ℕ} {buffer : List UInt8}
    {vs : List (List UInt8)} (beyond : Memory) (hbuffer : buffer.length = L)
    (hfresh : ∀ k, offset ≤ k → k < L → buffer.getD k 0 = 0xFF)
    (hascii : ∀ v ∈ vs, v.all isAscii = true) (hlength : length ≤ L)
    (hend : L ≤ max length (endOf offset vs))
    (hshort : (∀ v ∈ vs, v.length ≤ 254) → endOf offset vs ≤ L) :
    (∃ out, encodeStrings L buffer offset vs = some out ∧
        parseStrings (Memory.ofList out beyond) L offset vs.length = some vs) ↔
      StringsSurvive length offset vs := by
  induction vs generalizing buffer offset with
  | nil => exact ⟨fun _ => trivial, fun _ => ⟨buffer, rfl, rfl⟩⟩
  | cons v vs ih =>
    rw [List.forall_mem_cons] at hascii
    have hwritten : (writeString buffer offset v).length = L := by
      rw [length_writeString, hbuffer]
    by_cases hle : v.length ≤ 254
    · -- the size is exact, so the later strings stand behind this one
      rw [StringsSurvive, List.length_cons]
      have hsize : offset + stringSize v = offset + v.length + 1 := by
        rw [stringSize_eq, Nat.mod_eq_of_lt (by omega)]
        rfl
      rw [if_pos hle]
      rw [endOf, hsize] at hend hshort
      have hshort' : (∀ v ∈ vs, v.length ≤ 254) → endOf (offset + v.length + 1) vs ≤ L :=
        fun hvs => hshort (List.forall_mem_cons.mpr ⟨hle, hvs⟩)
      have hrest : offset + v.length < L →
          ((∃ out, encodeStrings L (writeString buffer offset v) (offset + v.length + 1) vs =
              some out ∧ parseStrings (Memory.ofList out beyond) L (offset + v.length + 1)
                vs.length = some vs) ↔ StringsSurvive length (offset + v.length + 1) vs) := by
        intro hfit
        refine ih hwritten (fun k hk hkL => ?_) hascii.2 hend hshort'
        have hnul := nulIndex_le_length v
        rw [getD_writeString (by omega), if_neg (by omega), if_neg (by omega),
          hfresh k (by omega) hkL]
      have hhead : ∀ {out}, offset + v.length < L →
          encodeStrings L (writeString buffer offset v) (offset + v.length + 1) vs = some out →
          (readString (fun i => Memory.ofList out beyond (offset + i)) (L - offset) = some v ↔
            strTerminator ∉ v ∧ ∀ i < v.length, v.getD i 0 = 0 → i + 1 = v.length) := by
        intro out hfit hout
        obtain ⟨hlen, hbefore⟩ := encodeStrings_eq_some hwritten hout
        exact readString_short_iff hbuffer hlen hfresh hfit hascii.1 hbefore
      constructor
      · rintro ⟨out, hout, hparse⟩
        rw [encodeStrings, hsize] at hout
        split_ifs at hout with hfit
        rw [parseStrings_succ_eq_some, hsize] at hparse
        obtain ⟨hnot, hnul⟩ := (hhead hfit hout).mp hparse.1
        exact ⟨hnot, hnul, (hrest hfit).mp ⟨out, hout, hparse.2⟩⟩
      · rintro ⟨hnot, hnul, hsurvive⟩
        have hfit : offset + v.length < L := hsurvive.offset_le hlength hshort'
        obtain ⟨out, hout, hparse⟩ := (hrest hfit).mpr hsurvive
        refine ⟨out, ?_, ?_⟩
        · rw [encodeStrings, hsize, if_pos hfit]
          exact hout
        · rw [parseStrings_succ_eq_some, hsize]
          exact ⟨(hhead hfit hout).mpr ⟨hnot, hnul⟩, hparse⟩
    · exact restored_cons_of_long beyond hbuffer hfresh hascii.1 hle hlength hend

end Surviving

end J1939
