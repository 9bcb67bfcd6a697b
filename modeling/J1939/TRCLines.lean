import J1939.TRC

/-!
# Reading a recorded line

The reader seeks back to the first character of every field. It does so with an `int`, which
ends at 2^31: a field from there on is not found again, and the line is wrong.
-/

namespace J1939

open Loop (Ends Leads)

variable {fmt : TimeFormat}

/-! ### Seeking back -/

section Seek

variable {s : IStream} (hgood : s.good = true)

include hgood

theorem flags_of_good : s.eofbit = false ∧ s.failbit = false := by
  rw [IStream.good, Bool.and_eq_true, Bool.not_eq_true', Bool.not_eq_true'] at hgood
  exact hgood

theorem tellg_advance : (s.advance 1).tellg = (((s.pos + 1 : ℕ) : ℤ), s.advance 1) := by
  have hgood' : (s.advance 1).good = true := hgood
  rw [IStream.tellg, if_pos hgood', IStream.pos_advance]

theorem seekBack_near (h : s.pos + 1 < 2 ^ 31) : seekBack (s.advance 1) = some s := by
  have hbmod : ((s.pos + 1 : ℕ) : ℤ).bmod (2 ^ 32) = s.pos + 1 :=
    Int.bmod_eq_of_le (by omega) (by omega)
  rw [seekBack, tellg_advance hgood]
  simp only [hbmod]
  rw [if_neg (by omega), Int.add_sub_cancel, IStream.seekg]
  obtain ⟨heof, hfail⟩ := flags_of_good hgood
  have hfail' : (s.advance 1).failbit = false := hfail
  rw [hfail', if_neg (by decide), if_neg (by omega), Int.toNat_natCast]
  cases s
  subst heof
  subst hfail
  rfl

theorem seekBack_far (h : 2 ^ 31 ≤ s.pos + 1) (hlt : s.pos + 1 < 2 ^ 32) :
    seekBack (s.advance 1) = none ∨ ∃ s', seekBack (s.advance 1) = some s' ∧ s'.Failed := by
  have hbmod : ((s.pos + 1 : ℕ) : ℤ).bmod (2 ^ 32) = s.pos + 1 - 2 ^ 32 := by
    rw [← Int.sub_bmod_right]
    exact Int.bmod_eq_of_le (by omega) (by omega)
  rw [seekBack, tellg_advance hgood]
  simp only [hbmod]
  split_ifs with hmin
  · exact .inl rfl
  · refine .inr ⟨_, rfl, ?_⟩
    obtain ⟨heof, hfail⟩ := flags_of_good hgood
    have hfail' : (s.advance 1).failbit = false := hfail
    rw [IStream.seekg, hfail', if_neg (by decide), if_pos (by omega)]
    exact ⟨rfl, rfl⟩

end Seek

/-! ### One round of the loop -/

/-- The characters at which the reader takes a field to begin. -/
def IsFieldChar (c : Char) : Prop := c ≠ ' ' ∧ c ≠ '\t' ∧ c ≠ ';' ∧ c ≠ '\n' ∧ c ≠ '\r'

/-- The line is not taken for a frame nor for an empty one. -/
def LineEnd.Wrong : LineEnd → Prop
  | undefined => True
  | left l => l.state ≠ parseStateGetEnd ∧ l.state ≠ parseStateGetPosition

theorem failed_readField {l : LineState} (h : l.stream.Failed) (c : Char) :
    (readField fmt c l).stream.Failed := by
  unfold readField
  by_cases hposition : l.state = parseStateGetPosition
  · rw [if_pos hposition]
    exact (h.setBase _).extractUInt.get.2
  rw [if_neg hposition]
  by_cases htime : l.state = parseStateGetTime
  · rw [if_pos htime]
    exact (h.setBase _).extractDouble _
  rw [if_neg htime]
  by_cases htype : l.state = parseStateGetType
  · rw [if_pos htype]
    exact h.get.2.get.2
  rw [if_neg htype]
  by_cases hid : l.state = parseStateGetId
  · rw [if_pos hid]
    exact (h.setBase _).extractUInt
  rw [if_neg hid]
  by_cases hlength : l.state = parseStateGetLength
  · rw [if_pos hlength]
    exact h.extractUInt
  rw [if_neg hlength]
  by_cases hdata : l.state = parseStateGetData
  · rw [if_pos hdata]
    simp only
    split_ifs
    · exact (h.setBase _).extractUInt
    · exact (h.setBase _).extractUInt
    · exact (h.setBase _).extractUInt
  rw [if_neg hdata]
  exact h

theorem afterField_failed {l : LineState} (h : l.stream.Failed) :
    ∃ e, afterField l = .inr e ∧ e.Wrong := by
  have hfailed : (l.stream.failbit && !l.stream.eofbit) = true := by
    rw [h.1, h.2]
    rfl
  have hwrong : parseStateGetError ≠ parseStateGetEnd ∧
      parseStateGetError ≠ parseStateGetPosition := by decide
  rw [afterField, if_pos hfailed]
  exact ⟨_, rfl, hwrong⟩

theorem afterField_good {l : LineState} (h : l.stream.good = true)
    (hstate : l.state ≠ parseStateGetError) :
    afterField l = .inl { l with state := l.state + 1 } := by
  obtain ⟨heof, hfail⟩ := flags_of_good h
  rw [afterField, hfail, heof]
  exact if_neg hstate

section Round

variable {l : LineState} (hgood : l.stream.good = true)

include hgood

theorem leads_spaces {n : ℕ} {cs : List Char}
    (hrest : l.stream.rest = List.replicate n ' ' ++ cs) :
    Leads (lineBody fmt) l { l with stream := l.stream.advance n } := by
  induction n generalizing l with
  | zero => exact .refl l
  | succ n ih =>
    rw [List.replicate_succ, List.cons_append] at hrest
    have hbody : lineBody fmt l = .inl { l with stream := l.stream.advance 1 } := by
      rw [lineBody, IStream.get_cons hgood hrest]
      rfl
    have hnext : (l.stream.advance 1).rest = List.replicate n ' ' ++ cs := by
      rw [IStream.rest_advance, hrest]
      rfl
    have hleads := @ih { l with stream := l.stream.advance 1 } hgood hnext
    rw [IStream.advance_advance, Nat.add_comm 1 n] at hleads
    exact (Leads.of_inl hbody).trans hleads

theorem lineBody_field {c : Char} {cs : List Char} (hrest : l.stream.rest = c :: cs)
    (hc : IsFieldChar c) :
    lineBody fmt l = parseField fmt c { l with stream := l.stream.advance 1 } := by
  rw [lineBody, IStream.get_cons hgood hrest]
  simp only
  rw [if_neg (by simp [hc.1, hc.2.1]), if_neg hc.2.2.1, if_neg hc.2.2.2.1, if_neg hc.2.2.2.2]

/-- A field behind white space is read when it is near enough, else the line is wrong. -/
theorem field_step {n : ℕ} {c : Char} {cs : List Char}
    (hrest : l.stream.rest = List.replicate n ' ' ++ c :: cs) (hc : IsFieldChar c)
    (hlt : l.stream.pos + n + 1 < 2 ^ 32) {l' : LineState}
    (hfield : afterField (readField fmt c { l with stream := l.stream.advance n }) = .inl l') :
    (l.stream.pos + n + 1 < 2 ^ 31 ∧ Leads (lineBody fmt) l l') ∨
      (2 ^ 31 ≤ l.stream.pos + n + 1 ∧ ∃ e, Ends (lineBody fmt) l e ∧ e.Wrong) := by
  have hspaces := @leads_spaces fmt l hgood n _ hrest
  have hnext : (l.stream.advance n).rest = c :: cs := by
    rw [IStream.rest_advance, hrest, List.drop_left' (List.length_replicate)]
  have hgood' : (l.stream.advance n).good = true := hgood
  have hbody := @lineBody_field fmt { l with stream := l.stream.advance n } hgood' c cs hnext hc
  rcases Nat.lt_or_ge (l.stream.pos + n + 1) (2 ^ 31) with hnear | hfar
  · refine .inl ⟨hnear, hspaces.trans (.of_inl ?_)⟩
    rw [hbody, parseField, seekBack_near hgood' hnear]
    exact hfield
  · refine .inr ⟨hfar, ?_⟩
    rcases seekBack_far hgood' hfar hlt with hnone | ⟨s', hsome, hfailed⟩
    · refine ⟨.undefined, hspaces _ (.of_inr ?_), trivial⟩
      rw [hbody, parseField, hnone]
    · obtain ⟨e, he, hwrong⟩ := afterField_failed
        (@failed_readField fmt { l with stream := s' } hfailed c)
      refine ⟨e, hspaces _ (.of_inr ?_), hwrong⟩
      rw [hbody, parseField, hsome]
      exact he

end Round

/-! ### The fields -/

theorem isFieldChar_of_isDigit {b : NumberBase} {c : Char} (h : b.isDigit c = true) :
    IsFieldChar c := by
  refine ⟨?_, ?_, ?_, ?_, ?_⟩ <;> rintro rfl <;> cases b <;> cases h

/-- The first digit of a number, and the others. -/
theorem exists_print_eq_cons (b : NumberBase) (n : ℕ) :
    ∃ c cs, b.print n = c :: cs ∧ IsFieldChar c := by
  obtain ⟨c, cs, hcons⟩ := List.exists_cons_of_ne_nil (b.print_ne_nil n)
  refine ⟨c, cs, hcons, isFieldChar_of_isDigit (b := b) ?_⟩
  apply NumberBase.isDigit_of_mem_print (n := n)
  rw [hcons]
  exact List.mem_cons_self

section Fields

variable {l : LineState} (hgood : l.stream.good = true)

include hgood

theorem readField_position (hstate : l.state = parseStateGetPosition) {n : ℕ} (hn : n < 2 ^ 32)
    {cs : List Char} (hrest : l.stream.rest = NumberBase.dec.print n ++ ')' :: cs) (c : Char) :
    readField fmt c l =
      { l with
        stream := (l.stream.setBase .dec).advance ((NumberBase.dec.print n).length + 1)
        position := UInt32.ofNat n } := by
  have hextract := @IStream.extractUInt_digits (l.stream.setBase .dec) hgood
    (NumberBase.dec.print n) cs ')' hrest (NumberBase.dec.print_ne_nil n)
    (fun d => NumberBase.isDigit_of_mem_print) (by rw [IStream.base_setBase]; decide) (by decide)
    (by rw [IStream.base_setBase, NumberBase.readDigits_print]; exact hn)
  rw [IStream.base_setBase, NumberBase.readDigits_print] at hextract
  have hrest' : ((l.stream.setBase .dec).advance (NumberBase.dec.print n).length).rest =
      ')' :: cs := by
    rw [IStream.rest_advance, IStream.rest_setBase, hrest, List.drop_left]
  have hgood' : ((l.stream.setBase .dec).advance (NumberBase.dec.print n).length).good = true :=
    hgood
  rw [readField, if_pos hstate, hextract]
  simp only
  rw [IStream.get_cons hgood' hrest', IStream.advance_advance]
  rfl

theorem readField_time (hstate : l.state = parseStateGetTime) {whole cs : List Char} {d : Char}
    {time : List Char} (htime : FixedPoint time whole d) {x : UInt64}
    (hread : fmt.read time = some x) (hrest : l.stream.rest = time ++ ' ' :: cs) (c : Char) :
    readField fmt c l =
      { l with stream := (l.stream.setBase .dec).advance time.length, time := x } := by
  obtain ⟨rfl, hne, -, hwhole, hd⟩ := htime
  have hextract := @IStream.extractDouble_fixed (l.stream.setBase .dec) hgood _ fmt.read whole [d]
    cs ' ' hrest hne hwhole (fun d' hd' => by rw [List.mem_singleton.mp hd']; exact hd) (by decide)
    x hread
  rw [readField, hstate, if_neg (by decide), if_pos rfl, hextract]
  rfl

theorem readField_type (hstate : l.state = parseStateGetType) {c₁ c₂ : Char} {cs : List Char}
    (hrest : l.stream.rest = c₁ :: c₂ :: cs) (c : Char) :
    readField fmt c l = { l with stream := l.stream.advance 2 } := by
  have hnext : (l.stream.advance 1).rest = c₂ :: cs := by
    rw [IStream.rest_advance, hrest]
    rfl
  have hgood' : (l.stream.advance 1).good = true := hgood
  rw [readField, hstate, if_neg (by decide), if_neg (by decide), if_pos rfl,
    IStream.get_cons hgood hrest]
  simp only
  rw [IStream.get_cons hgood' hnext, IStream.advance_advance]

theorem readField_id (hstate : l.state = parseStateGetId) (n : UInt32) {cs : List Char}
    (hrest : l.stream.rest = setw 8 '0' (NumberBase.hex.print n.toNat) ++ ' ' :: cs) (c : Char) :
    readField fmt c l =
      { l with stream := (l.stream.setBase .hex).advance 8, id := n } := by
  have hlength : (setw 8 '0' (NumberBase.hex.print n.toNat)).length = 8 := by
    have hle := (NumberBase.hex.length_print_le_iff n.toNat (k := 8) (by decide)).mpr n.toNat_lt
    rw [length_setw]
    omega
  have hne : setw 8 '0' (NumberBase.hex.print n.toNat) ≠ [] := by
    intro hnil
    rw [hnil] at hlength
    cases hlength
  have hextract := @IStream.extractUInt_digits (l.stream.setBase .hex) hgood _ cs ' ' hrest hne
    (isDigit_of_mem_setw fun d => NumberBase.isDigit_of_mem_print)
    (by rw [IStream.base_setBase]; decide) (by decide)
    (by rw [IStream.base_setBase, readDigits_setw, NumberBase.readDigits_print]; exact n.toNat_lt)
  rw [IStream.base_setBase, readDigits_setw, NumberBase.readDigits_print, UInt32.ofNat_toNat,
    hlength] at hextract
  rw [readField, hstate, if_neg (by decide), if_neg (by decide), if_neg (by decide), if_pos rfl,
    hextract]
  rfl

/-- The length is read as a hexadecimal number, which makes no difference up to 9. -/
theorem readField_length (hstate : l.state = parseStateGetLength) (hbase : l.stream.base = .hex)
    {n : ℕ} (hn : n ≤ 9) {cs : List Char}
    (hrest : l.stream.rest = NumberBase.dec.print n ++ ' ' :: cs) (c : Char) :
    readField fmt c l =
      { l with stream := l.stream.advance 1, length := UInt32.ofNat n } := by
  have hsame : NumberBase.dec.print n = NumberBase.hex.print n := by
    interval_cases n <;> rfl
  have hlength : (NumberBase.hex.print n).length = 1 := by
    interval_cases n <;> rfl
  rw [hsame] at hrest
  have hextract := @IStream.extractUInt_digits l.stream hgood _ cs ' ' hrest
    (NumberBase.hex.print_ne_nil n)
    (by rw [hbase]; exact fun d => NumberBase.isDigit_of_mem_print) (by rw [hbase]; decide)
    (by decide) (by rw [hbase, NumberBase.readDigits_print]; omega)
  rw [hbase, NumberBase.readDigits_print, hlength] at hextract
  rw [readField, hstate, if_neg (by decide), if_neg (by decide), if_neg (by decide),
    if_neg (by decide), if_pos rfl, hextract]
  rfl

theorem readField_data (hstate : l.state = parseStateGetData) (hbase : l.stream.base = .hex)
    (octet : UInt8) {cs : List Char} (hrest : l.stream.rest = printOctet octet ++ cs) (c : Char) :
    readField fmt c l =
      { l with
        stream := l.stream.advance 2
        dataAux := octet.toUInt32
        data := l.data ++ [octet]
        state := if l.data.length + 1 < l.length.toNat then parseStateGetLength
          else parseStateGetData } := by
  have hlength : (setw 2 '0' (NumberBase.hex.print octet.toNat)).length = 2 := by
    have hle := (NumberBase.hex.length_print_le_iff octet.toNat (k := 2) (by decide)).mpr
      octet.toNat_lt
    rw [length_setw]
    omega
  have hne : setw 2 '0' (NumberBase.hex.print octet.toNat) ≠ [] := by
    intro hnil
    rw [hnil] at hlength
    cases hlength
  have hset : l.stream.setBase .hex = l.stream := by
    rw [← hbase]
    rfl
  have hlt := octet.toNat_lt
  rw [printOctet, List.append_assoc] at hrest
  have hextract := @IStream.extractUInt_digits l.stream hgood _ cs ' ' hrest hne
    (by rw [hbase]; exact isDigit_of_mem_setw fun d => NumberBase.isDigit_of_mem_print)
    (by rw [hbase]; decide) (by decide)
    (by rw [hbase, readDigits_setw, NumberBase.readDigits_print]; omega)
  have hvalue : UInt32.ofNat octet.toNat = octet.toUInt32 := by
    rw [← UInt32.toNat_inj, UInt8.toNat_toUInt32]
    exact UInt32.toNat_ofNat_of_lt' (show octet.toNat < 2 ^ 32 by omega)
  rw [hbase, readDigits_setw, NumberBase.readDigits_print, hlength, hvalue] at hextract
  have hsmall : octet.toUInt32 ≤ 0xFF := by
    rw [UInt32.le_iff_toNat_le, UInt8.toNat_toUInt32]
    exact Nat.le_of_lt_succ hlt
  rw [readField, hstate, if_neg (by decide), if_neg (by decide), if_neg (by decide),
    if_neg (by decide), if_neg (by decide), if_pos rfl, hset, hextract]
  simp only [Option.getD_some]
  rw [if_pos hsmall, UInt8.toUInt8_toUInt32, List.length_append, List.length_singleton]
  rfl

end Fields

/-! ### The data -/

theorem lineBody_newline {l : LineState} (hgood : l.stream.good = true) {cs : List Char}
    (hrest : l.stream.rest = '\n' :: cs) :
    lineBody fmt l = .inr (.left { l with stream := l.stream.advance 1 }) := by
  rw [lineBody, IStream.get_cons hgood hrest]
  rfl

theorem length_printOctet (octet : UInt8) : (printOctet octet).length = 3 := by
  have hle := (NumberBase.hex.length_print_le_iff octet.toNat (k := 2) (by decide)).mpr
    octet.toNat_lt
  rw [printOctet, List.length_append, length_setw, List.length_singleton]
  omega

theorem exists_setw_eq_cons (width n : ℕ) :
    ∃ c cs, setw width '0' (NumberBase.hex.print n) = c :: cs ∧ IsFieldChar c := by
  have hne : setw width '0' (NumberBase.hex.print n) ≠ [] := by
    intro hnil
    exact NumberBase.hex.print_ne_nil n (List.append_eq_nil_iff.mp hnil).2
  obtain ⟨c, cs, hcons⟩ := List.exists_cons_of_ne_nil hne
  refine ⟨c, cs, hcons, isFieldChar_of_isDigit (b := .hex) ?_⟩
  have hmem : c ∈ setw width '0' (NumberBase.hex.print n) := by
    rw [hcons]
    exact List.mem_cons_self
  exact isDigit_of_mem_setw (fun d => NumberBase.isDigit_of_mem_print) c hmem

/-- The line has been read to its end, with these data. -/
structure ReadsData (fmt : TimeFormat) (l : LineState) (n : ℕ) (data : List UInt8)
    (l' : LineState) : Prop where
  ends : Ends (lineBody fmt) l (.left l')
  stream : l'.stream = l.stream.advance n
  state : l'.state = parseStateGetEnd
  position : l'.position = l.position
  time : l'.time = l.time
  id : l'.id = l.id
  length : l'.length = l.length
  data : l'.data = data

theorem ReadsData.of_leads {l l₁ l' : LineState} {m n : ℕ} {data : List UInt8}
    (h : ReadsData fmt l₁ n data l') (hleads : Leads (lineBody fmt) l l₁)
    (hstream : l₁.stream = l.stream.advance m) (hposition : l₁.position = l.position)
    (htime : l₁.time = l.time) (hid : l₁.id = l.id) (hlength : l₁.length = l.length) :
    ReadsData fmt l (m + n) data l' where
  ends := hleads _ h.ends
  stream := by rw [h.stream, hstream, IStream.advance_advance]
  state := h.state
  position := h.position.trans hposition
  time := h.time.trans htime
  id := h.id.trans hid
  length := h.length.trans hlength
  data := h.data

/-- The data are read unless the last byte is too far away. -/
theorem octets_step {cs : List Char} {octets : List UInt8} (hne : octets ≠ []) {l : LineState}
    {n : ℕ} (hgood : l.stream.good = true) (hbase : l.stream.base = .hex)
    (hstate : l.state = parseStateGetData)
    (hlength : l.data.length + octets.length = l.length.toNat)
    (hrest : l.stream.rest = List.replicate n ' ' ++ (octets.flatMap printOctet ++ '\n' :: cs))
    (hlt : l.stream.pos + n + 3 * octets.length < 2 ^ 32) :
    (l.stream.pos + n + 3 * octets.length < 2 ^ 31 + 2 ∧
        ∃ l', ReadsData fmt l (n + 3 * octets.length + 1) (l.data ++ octets) l') ∨
      (2 ^ 31 + 2 ≤ l.stream.pos + n + 3 * octets.length ∧
        ∃ e, Ends (lineBody fmt) l e ∧ e.Wrong) := by
  induction octets generalizing l n with
  | nil => exact absurd rfl hne
  | cons octet octets ih =>
    obtain ⟨c, rest, hcons, hc⟩ := exists_setw_eq_cons 2 octet.toNat
    rw [List.length_cons] at hlength hlt ⊢
    rw [List.flatMap_cons, List.append_assoc] at hrest
    have hfirst : l.stream.rest = List.replicate n ' ' ++
        c :: (rest ++ [' '] ++ (octets.flatMap printOctet ++ '\n' :: cs)) := by
      rw [hrest, printOctet, hcons]
      rfl
    have hfield : (l.stream.advance n).rest =
        printOctet octet ++ (octets.flatMap printOctet ++ '\n' :: cs) := by
      rw [IStream.rest_advance, hrest, List.drop_left' List.length_replicate]
    have hread := @readField_data fmt { l with stream := l.stream.advance n } hgood hstate hbase
      octet _ hfield c
    have hnext : (l.stream.advance (n + 2)).rest =
        List.replicate 1 ' ' ++ (octets.flatMap printOctet ++ '\n' :: cs) := by
      have hlength := length_printOctet octet
      rw [printOctet, List.length_append, List.length_singleton] at hlength
      rw [← IStream.advance_advance, IStream.rest_advance, hfield, printOctet, List.append_assoc,
        List.drop_left' (by omega)]
      rfl
    obtain ⟨l₁, hl₁⟩ : ∃ l₁ : LineState, l₁ = {
        { l with
          stream := l.stream.advance (n + 2)
          dataAux := octet.toUInt32
          data := l.data ++ [octet] } with
        state := if l.data.length + 1 < l.length.toNat then parseStateGetData
          else parseStateGetEnd } := ⟨_, rfl⟩
    have hafter : afterField (readField fmt c { l with stream := l.stream.advance n }) =
        .inl l₁ := by
      rw [hread, IStream.advance_advance]
      refine (afterField_good ?_ ?_).trans ?_
      · exact hgood
      · simp only
        split_ifs <;> decide
      · rw [hl₁]
        simp only
        split_ifs <;> rfl
    rcases field_step hgood hfirst hc (by omega) hafter with ⟨hnear, hleads⟩ | ⟨hfar, hwrong⟩
    · have hgood₁ : l₁.stream.good = true := by
        rw [hl₁]
        exact hgood
      have hrest₁ : l₁.stream.rest =
          List.replicate 1 ' ' ++ (octets.flatMap printOctet ++ '\n' :: cs) := by
        rw [hl₁]
        exact hnext
      have hreads : ∀ {m data l'}, ReadsData fmt l₁ m data l' →
          ReadsData fmt l (n + 2 + m) data l' := fun h =>
        h.of_leads hleads (by rw [hl₁]) (by rw [hl₁]) (by rw [hl₁]) (by rw [hl₁]) (by rw [hl₁])
      cases octets with
      | nil =>
        rw [List.length_nil] at hlength ⊢
        refine .inl ⟨by omega, ?_⟩
        have hstate₁ : l₁.state = parseStateGetEnd := by
          rw [hl₁]
          exact if_neg (by omega)
        have hspace := @leads_spaces fmt l₁ hgood₁ 1 _ hrest₁
        have hnewline : (l₁.stream.advance 1).rest = '\n' :: cs := by
          rw [IStream.rest_advance, hrest₁]
          rfl
        have hend := hspace _ (.of_inr (@lineBody_newline fmt
          { l₁ with stream := l₁.stream.advance 1 } hgood₁ cs hnewline))
        have hdata : l₁.data = l.data ++ [octet] := by rw [hl₁]
        exact ⟨_, hreads
          ⟨hend, by rw [IStream.advance_advance], hstate₁, rfl, rfl, rfl, rfl, hdata⟩⟩
      | cons next octets =>
        have hstate₁ : l₁.state = parseStateGetData := by
          rw [hl₁]
          exact if_pos (by rw [← hlength, List.length_cons]; omega)
        have hpos : l₁.stream.pos = l.stream.pos + (n + 2) := by rw [hl₁]; rfl
        have hlength₁ : l₁.data.length + (next :: octets).length = l₁.length.toNat := by
          rw [hl₁, List.length_append, List.length_singleton, ← hlength]
          omega
        have hbase₁ : l₁.stream.base = .hex := by rw [hl₁]; exact hbase
        have hdata : l₁.data ++ next :: octets = l.data ++ octet :: next :: octets := by
          rw [hl₁, List.append_assoc]
          rfl
        rcases @ih (List.cons_ne_nil _ _) l₁ 1 hgood₁ hbase₁ hstate₁ hlength₁ hrest₁ (by omega) with
          ⟨hnear', l', hl'⟩ | ⟨hfar', e, hends, hwrong⟩
        · refine .inl ⟨by omega, l', ?_⟩
          have hreads' := hreads hl'
          rw [hdata] at hreads'
          have hsum : n + 2 + (1 + 3 * (next :: octets).length + 1) =
              n + 3 * ((next :: octets).length + 1) + 1 := by omega
          rwa [hsum] at hreads'
        · exact .inr ⟨by omega, e, hleads _ hends, hwrong⟩
    · exact .inr ⟨by omega, hwrong⟩

/-! ### A whole line -/

section Steps

variable {l : LineState} (hgood : l.stream.good = true)

include hgood

omit hgood in
theorem rest_setw {s : IStream} {width : ℕ} {field cs : List Char}
    (hrest : s.rest = setw width ' ' field ++ cs) :
    (s.advance (width - field.length)).rest = field ++ cs := by
  rw [IStream.rest_advance, hrest, setw, List.append_assoc,
    List.drop_left' List.length_replicate]

/-- A padded field is read, or it is too far away and the line is wrong. -/
theorem setw_step {width : ℕ} {c : Char} {field cs : List Char}
    (hrest : l.stream.rest = setw width ' ' (c :: field) ++ cs) (hc : IsFieldChar c)
    (hlt : l.stream.pos + max width (field.length + 1) < 2 ^ 32) {l₁ : LineState}
    (hread : readField fmt c
      { l with stream := l.stream.advance (width - (field.length + 1)) } = l₁)
    (hgood₁ : l₁.stream.good = true) (hstate₁ : l₁.state ≠ parseStateGetError) :
    Leads (lineBody fmt) l { l₁ with state := l₁.state + 1 } ∨
      (2 ^ 31 ≤ l.stream.pos + max width (field.length + 1) ∧
        ∃ e, Ends (lineBody fmt) l e ∧ e.Wrong) := by
  have hfield : afterField (readField fmt c
      { l with stream := l.stream.advance (width - (field.length + 1)) }) =
        .inl { l₁ with state := l₁.state + 1 } := by
    rw [hread]
    exact afterField_good hgood₁ hstate₁
  rw [setw, List.append_assoc] at hrest
  rcases field_step hgood hrest hc (by rw [List.length_cons]; omega) hfield with
    ⟨-, hleads⟩ | ⟨hfar, hwrong⟩
  · exact .inl hleads
  · rw [List.length_cons] at hfar
    exact .inr ⟨by omega, hwrong⟩

theorem position_step (hstate : l.state = parseStateGetPosition) (n : UInt32) {cs : List Char}
    (hrest : l.stream.rest = setw 8 ' ' (NumberBase.dec.print n.toNat ++ [')']) ++ cs)
    (hlt : l.stream.pos + max 8 ((NumberBase.dec.print n.toNat).length + 1) < 2 ^ 32) :
    Leads (lineBody fmt) l
        { l with
          stream := (l.stream.setBase .dec).advance
            (max 8 ((NumberBase.dec.print n.toNat).length + 1))
          position := n
          state := parseStateGetTime } ∨
      (2 ^ 31 ≤ l.stream.pos + max 8 ((NumberBase.dec.print n.toNat).length + 1) ∧
        ∃ e, Ends (lineBody fmt) l e ∧ e.Wrong) := by
  obtain ⟨c, digits, hcons, hc⟩ := exists_print_eq_cons .dec n.toNat
  have hfield := rest_setw hrest
  rw [List.append_assoc] at hfield
  have hread := @readField_position fmt { l with stream := l.stream.advance _ } hgood hstate _
    n.toNat_lt _ hfield c
  have hwidth : (digits ++ [')']).length + 1 = (NumberBase.dec.print n.toNat).length + 1 := by
    rw [hcons]
    simp
  have hsum : 8 - ((NumberBase.dec.print n.toNat).length + 1) +
      ((NumberBase.dec.print n.toNat).length + 1) =
        max 8 ((NumberBase.dec.print n.toNat).length + 1) := by omega
  rw [List.length_append, List.length_singleton, IStream.setBase_advance, IStream.advance_advance,
    hsum, UInt32.ofNat_toNat] at hread
  rw [← hwidth] at hlt hread ⊢
  rw [hcons, List.cons_append] at hrest
  have hstep := setw_step hgood hrest hc hlt hread hgood (by rw [hstate]; decide)
  rwa [hstate] at hstep

theorem time_step (hfmt : fmt.Documented) (hstate : l.state = parseStateGetTime) (t : TimeStamp)
    {cs : List Char} (hrest : l.stream.rest = setw 12 ' ' (fmt.print t) ++ ' ' :: cs)
    (hlt : l.stream.pos + 12 < 2 ^ 32) :
    ∃ x, Leads (lineBody fmt) l
        { l with
          stream := (l.stream.setBase .dec).advance 12
          time := x
          state := parseStateGetType } ∨
      (2 ^ 31 ≤ l.stream.pos + 12 ∧ ∃ e, Ends (lineBody fmt) l e ∧ e.Wrong) := by
  obtain ⟨whole, d, htime⟩ := hfmt.print_fixed t
  obtain ⟨x, hx⟩ := hfmt.read_fixed _ whole d htime
  obtain ⟨c, digits, hcons⟩ := List.exists_cons_of_ne_nil htime.ne_nil
  have hc : IsFieldChar c := isFieldChar_of_isDigit (htime.whole c (by rw [hcons]; simp))
  have hread := @readField_time fmt { l with stream := l.stream.advance _ } hgood hstate whole cs d
    _ htime x hx (rest_setw hrest) c
  have hprint : fmt.print t = c :: (digits ++ ['.', d]) := by
    rw [htime.eq, hcons]
    rfl
  have hle : (digits ++ ['.', d]).length + 1 ≤ 12 := by
    have hlength := htime.length
    rw [hcons, List.length_cons] at hlength
    rw [List.length_append, List.length_cons, List.length_singleton]
    omega
  have hsum : 12 - ((digits ++ ['.', d]).length + 1) + ((digits ++ ['.', d]).length + 1) = 12 := by
    omega
  rw [IStream.setBase_advance, IStream.advance_advance, hprint, List.length_cons, hsum] at hread
  rw [hprint] at hrest
  have hstep := setw_step hgood hrest hc (by rw [max_eq_left hle]; exact hlt) hread hgood
    (by rw [hstate]; decide)
  rw [hstate, max_eq_left hle] at hstep
  exact ⟨x, hstep⟩

theorem type_step (hstate : l.state = parseStateGetType) {cs : List Char}
    (hrest : l.stream.rest = setw 4 ' ' ['R', 'x'] ++ cs) (hlt : l.stream.pos + 4 < 2 ^ 32) :
    Leads (lineBody fmt) l
        { l with stream := l.stream.advance 4, state := parseStateGetId } ∨
      (2 ^ 31 ≤ l.stream.pos + 4 ∧ ∃ e, Ends (lineBody fmt) l e ∧ e.Wrong) := by
  have hread := @readField_type fmt { l with stream := l.stream.advance _ } hgood hstate 'R' 'x' cs
    (rest_setw hrest) 'R'
  rw [IStream.advance_advance] at hread
  have hstep := setw_step hgood hrest (by unfold IsFieldChar; decide) hlt hread hgood
    (by rw [hstate]; decide)
  rwa [hstate] at hstep

theorem id_step (hstate : l.state = parseStateGetId) (n : UInt32) {cs : List Char}
    (hrest : l.stream.rest = setw 13 ' ' (setw 8 '0' (NumberBase.hex.print n.toNat)) ++ ' ' :: cs)
    (hlt : l.stream.pos + 13 < 2 ^ 32) :
    Leads (lineBody fmt) l
        { l with
          stream := (l.stream.setBase .hex).advance 13
          id := n
          state := parseStateGetLength } ∨
      (2 ^ 31 ≤ l.stream.pos + 13 ∧ ∃ e, Ends (lineBody fmt) l e ∧ e.Wrong) := by
  obtain ⟨c, digits, hcons, hc⟩ := exists_setw_eq_cons 8 n.toNat
  have hlength : digits.length + 1 = 8 := by
    have hle := (NumberBase.hex.length_print_le_iff n.toNat (k := 8) (by decide)).mpr n.toNat_lt
    rw [← List.length_cons (a := c), ← hcons, length_setw]
    omega
  have hread := @readField_id fmt { l with stream := l.stream.advance _ } hgood hstate n cs
    (rest_setw hrest) c
  have hsum : 13 - (digits.length + 1) + 8 = 13 := by omega
  rw [hcons, List.length_cons, IStream.setBase_advance, IStream.advance_advance, hsum] at hread
  rw [hcons] at hrest
  have hstep := setw_step hgood hrest hc (by omega) hread hgood (by rw [hstate]; decide)
  rwa [hstate, hlength] at hstep

theorem length_step (hstate : l.state = parseStateGetLength) (hbase : l.stream.base = .hex) {n : ℕ}
    (hn : n ≤ 9) {cs : List Char}
    (hrest : l.stream.rest = setw 3 ' ' (NumberBase.dec.print n) ++ ' ' :: cs)
    (hlt : l.stream.pos + 3 < 2 ^ 32) :
    Leads (lineBody fmt) l
        { l with
          stream := l.stream.advance 3
          length := UInt32.ofNat n
          state := parseStateGetData } ∨
      (2 ^ 31 ≤ l.stream.pos + 3 ∧ ∃ e, Ends (lineBody fmt) l e ∧ e.Wrong) := by
  obtain ⟨c, digits, hcons, hc⟩ := exists_print_eq_cons .dec n
  have hlength : digits.length + 1 = 1 := by
    have hle := (NumberBase.dec.length_print_le_iff n (k := 1) (by decide)).mpr
      (show n < 10 by omega)
    rw [hcons, List.length_cons] at hle
    omega
  have hread := @readField_length fmt { l with stream := l.stream.advance _ } hgood hstate hbase n
    hn cs (rest_setw hrest) c
  have hsum : 3 - (digits.length + 1) + 1 = 3 := by omega
  rw [hcons, List.length_cons, IStream.advance_advance, hsum] at hread
  rw [hcons] at hrest
  have hstep := setw_step hgood hrest hc (by omega) hread hgood (by rw [hstate]; decide)
  rwa [hstate, hlength] at hstep

end Steps

/-- The characters of the counter. -/
def counterLength (counter : UInt32) : ℕ :=
  max 8 ((NumberBase.dec.print counter.toNat).length + 1)

theorem counterLength_le (counter : UInt32) : counterLength counter ≤ 11 := by
  have hdigits := (NumberBase.dec.length_print_le_iff counter.toNat (k := 10) (by decide)).mpr
    (lt_trans counter.toNat_lt (by decide))
  rw [counterLength]
  omega

/-- The characters of a line, up to nine bytes. -/
def lineLength (counter : UInt32) (length : ℕ) : ℕ :=
  max 8 ((NumberBase.dec.print counter.toNat).length + 1) + 35 + 3 * length

section Line

variable {frame : CanFrame} {t : TimeStamp} {counter : UInt32} {cs : List Char}

theorem length_setw_print (hfmt : fmt.Documented) (t : TimeStamp) :
    (setw 12 ' ' (fmt.print t)).length = 12 := by
  obtain ⟨whole, d, htime⟩ := hfmt.print_fixed t
  have hle := htime.length
  rw [length_setw, htime.eq, List.length_append, List.length_cons, List.length_singleton]
  omega

theorem length_flatMap_printOctet (octets : List UInt8) :
    (octets.flatMap printOctet).length = 3 * octets.length := by
  induction octets with
  | nil => rfl
  | cons octet octets ih =>
    rw [List.flatMap_cons, List.length_append, length_printOctet, ih, List.length_cons]
    omega

theorem length_setw_length {n : ℕ} (hn : n ≤ 9) :
    (setw 3 ' ' (NumberBase.dec.print n)).length = 3 := by
  have hle := (NumberBase.dec.length_print_le_iff n (k := 1) (by decide)).mpr (show n < 10 by omega)
  rw [length_setw]
  omega

theorem length_setw_id (n : UInt32) :
    (setw 13 ' ' (setw 8 '0' (NumberBase.hex.print n.toNat))).length = 13 := by
  have hle := (NumberBase.hex.length_print_le_iff n.toNat (k := 8) (by decide)).mpr n.toNat_lt
  rw [length_setw, length_setw]
  omega

theorem length_printLine (hfmt : fmt.Documented) (hlength : frame.data.length ≤ 9) :
    (printLine fmt counter frame t).length = lineLength counter frame.data.length := by
  simp only [printLine, lineLength, List.length_append, length_setw_print hfmt,
    length_setw_length hlength, length_setw_id, length_flatMap_printOctet]
  rw [length_setw, length_setw, List.length_append]
  simp only [List.length_cons, List.length_nil]
  omega

/-- The counter, the time and the type are read, or they are too far away and the line is wrong. -/
theorem start_step (hfmt : fmt.Documented) {l : LineState} (hgood : l.stream.good = true)
    (hstate : l.state = parseStateGetPosition)
    (hrest : l.stream.rest = setw 8 ' ' (NumberBase.dec.print counter.toNat ++ [')']) ++
      (setw 12 ' ' (fmt.print t) ++ (setw 4 ' ' ['R', 'x'] ++ cs)))
    (hlt : l.stream.pos + counterLength counter + 16 < 2 ^ 32) :
    (∃ x, Leads (lineBody fmt) l
        { l with
          stream := (l.stream.setBase .dec).advance (counterLength counter + 16)
          position := counter
          time := x
          state := parseStateGetId }) ∨
      (2 ^ 31 ≤ l.stream.pos + counterLength counter + 16 ∧
        ∃ e, Ends (lineBody fmt) l e ∧ e.Wrong) := by
  obtain ⟨W, hW⟩ : ∃ W, W = counterLength counter := ⟨_, rfl⟩
  rw [← hW] at hlt ⊢
  rw [counterLength] at hW
  -- the position
  rcases position_step hgood hstate counter hrest (by omega) with hleads₁ | ⟨hfar, hwrong⟩
  swap
  · exact .inr ⟨by omega, hwrong⟩
  rw [← hW] at hleads₁
  obtain ⟨l₁, hl₁⟩ : ∃ l₁ : LineState, l₁ = { l with
      stream := (l.stream.setBase .dec).advance W
      position := counter
      state := parseStateGetTime } := ⟨_, rfl⟩
  rw [← hl₁] at hleads₁
  have hgood₁ : l₁.stream.good = true := by rw [hl₁]; exact hgood
  have hpos₁ : l₁.stream.pos = l.stream.pos + W := by rw [hl₁]; rfl
  have hrest₁ : l₁.stream.rest = setw 12 ' ' (fmt.print t) ++ (setw 4 ' ' ['R', 'x'] ++ cs) := by
    rw [hl₁, IStream.rest_advance, IStream.rest_setBase, hrest]
    refine List.drop_left' ?_
    rw [length_setw, List.length_append, List.length_singleton, hW]
  -- the time
  obtain ⟨x, hleads₂ | ⟨hfar, e, hends, hwrong⟩⟩ := @time_step fmt l₁ hgood₁ hfmt (by rw [hl₁]) t _
    hrest₁ (by omega)
  swap
  · exact .inr ⟨by omega, e, hleads₁ _ hends, hwrong⟩
  obtain ⟨l₂, hl₂⟩ : ∃ l₂ : LineState, l₂ = { l₁ with
      stream := (l₁.stream.setBase .dec).advance 12
      time := x
      state := parseStateGetType } := ⟨_, rfl⟩
  rw [← hl₂] at hleads₂
  have hgood₂ : l₂.stream.good = true := by rw [hl₂]; exact hgood₁
  have hpos₂ : l₂.stream.pos = l₁.stream.pos + 12 := by rw [hl₂]; rfl
  have hrest₂ : l₂.stream.rest = setw 4 ' ' ['R', 'x'] ++ cs := by
    rw [hl₂, IStream.rest_advance, IStream.rest_setBase, hrest₁]
    exact List.drop_left' (length_setw_print hfmt t)
  -- the type
  rcases @type_step fmt l₂ hgood₂ (by rw [hl₂]) _ hrest₂ (by omega) with
    hleads₃ | ⟨hfar, e, hends, hwrong⟩
  · refine .inl ⟨x, ?_⟩
    have hleads := hleads₁.trans (hleads₂.trans hleads₃)
    rw [hl₂, hl₁] at hleads
    simp only [IStream.setBase_advance, IStream.setBase_setBase, IStream.advance_advance,
      Nat.add_assoc] at hleads
    exact hleads
  · exact .inr ⟨by omega, e, hleads₁ _ (hleads₂ _ hends), hwrong⟩

theorem exists_setw_length {n : ℕ} (hn : n ≤ 9) :
    ∃ digits, setw 3 ' ' (NumberBase.dec.print n) = ' ' :: digits := by
  have hle := (NumberBase.dec.length_print_le_iff n (k := 1) (by decide)).mpr (show n < 10 by omega)
  obtain ⟨k, hk⟩ : ∃ k, 3 - (NumberBase.dec.print n).length = k + 1 :=
    ⟨2 - (NumberBase.dec.print n).length, by omega⟩
  rw [setw, hk, List.replicate_succ]
  exact ⟨_, rfl⟩

/-- The identifier and the length are read, or they are too far away and the line is wrong. -/
theorem id_length_step {l : LineState} (hgood : l.stream.good = true)
    (hstate : l.state = parseStateGetId) (id : UInt32) {n : ℕ} (hn : n ≤ 9)
    (hrest : l.stream.rest = setw 13 ' ' (setw 8 '0' (NumberBase.hex.print id.toNat)) ++
      (setw 3 ' ' (NumberBase.dec.print n) ++ ' ' :: cs))
    (hlt : l.stream.pos + 16 < 2 ^ 32) :
    Leads (lineBody fmt) l
        { l with
          stream := (l.stream.setBase .hex).advance 16
          id := id
          length := UInt32.ofNat n
          state := parseStateGetData } ∨
      (2 ^ 31 ≤ l.stream.pos + 16 ∧ ∃ e, Ends (lineBody fmt) l e ∧ e.Wrong) := by
  obtain ⟨digits, hdigits⟩ := exists_setw_length hn
  have hspace : l.stream.rest = setw 13 ' ' (setw 8 '0' (NumberBase.hex.print id.toNat)) ++
      ' ' :: (digits ++ ' ' :: cs) := by
    rw [hrest, hdigits]
    rfl
  rcases id_step hgood hstate id hspace (by omega) with hleads₁ | ⟨hfar, hwrong⟩
  swap
  · exact .inr ⟨by omega, hwrong⟩
  obtain ⟨l₁, hl₁⟩ : ∃ l₁ : LineState, l₁ = { l with
      stream := (l.stream.setBase .hex).advance 13
      id := id
      state := parseStateGetLength } := ⟨_, rfl⟩
  rw [← hl₁] at hleads₁
  have hgood₁ : l₁.stream.good = true := by rw [hl₁]; exact hgood
  have hbase₁ : l₁.stream.base = .hex := by rw [hl₁]; rfl
  have hpos₁ : l₁.stream.pos = l.stream.pos + 13 := by rw [hl₁]; rfl
  have hrest₁ : l₁.stream.rest = setw 3 ' ' (NumberBase.dec.print n) ++ ' ' :: cs := by
    rw [hl₁, IStream.rest_advance, IStream.rest_setBase, hrest]
    exact List.drop_left' (length_setw_id id)
  rcases @length_step fmt l₁ hgood₁ (by rw [hl₁]) hbase₁ _ hn _ hrest₁ (by omega) with
    hleads₂ | ⟨hfar, e, hends, hwrong⟩
  · left
    have hleads := hleads₁.trans hleads₂
    rw [hl₁, IStream.advance_advance] at hleads
    exact hleads
  · exact .inr ⟨by omega, e, hleads₁ _ hends, hwrong⟩

/-- The data are read when there is a byte, and the last one is not too far away. A line without
data ends in the state in which a byte is expected. -/
theorem data_step {octets : List UInt8} {l : LineState} (hgood : l.stream.good = true)
    (hbase : l.stream.base = .hex) (hstate : l.state = parseStateGetData)
    (hlength : l.data.length + octets.length = l.length.toNat)
    (hrest : l.stream.rest = List.replicate 2 ' ' ++ (octets.flatMap printOctet ++ '\n' :: cs))
    (hlt : l.stream.pos + 2 + 3 * octets.length < 2 ^ 32) :
    ((octets ≠ [] ∧ l.stream.pos + 2 + 3 * octets.length < 2 ^ 31 + 2) ∧
        ∃ l', ReadsData fmt l (2 + 3 * octets.length + 1) (l.data ++ octets) l') ∨
      (¬(octets ≠ [] ∧ l.stream.pos + 2 + 3 * octets.length < 2 ^ 31 + 2) ∧
        ∃ e, Ends (lineBody fmt) l e ∧ e.Wrong) := by
  by_cases hne : octets = []
  · rw [hne] at hrest
    have hspaces := @leads_spaces fmt l hgood 2 _ hrest
    have hnewline : (l.stream.advance 2).rest = '\n' :: cs := by
      rw [IStream.rest_advance, hrest]
      rfl
    have hend := hspaces _ (.of_inr (@lineBody_newline fmt
      { l with stream := l.stream.advance 2 } hgood cs hnewline))
    refine .inr ⟨fun h => h.1 hne, _, hend, ?_⟩
    change l.state ≠ parseStateGetEnd ∧ l.state ≠ parseStateGetPosition
    rw [hstate]
    decide
  · rcases octets_step hne hgood hbase hstate hlength hrest hlt with
      ⟨hnear, hreads⟩ | ⟨hfar, hwrong⟩
    · exact .inl ⟨⟨hne, hnear⟩, hreads⟩
    · exact .inr ⟨fun h => by omega, hwrong⟩

/-- A line gives a frame when it has a byte of data and does not end too far away, else it is
wrong. -/
theorem line_step (hfmt : fmt.Documented) (hlength : frame.data.length ≤ 9) {l : LineState}
    (hgood : l.stream.good = true)
    (hrest : l.stream.rest = printLine fmt counter frame t ++ cs)
    (hpos : l.stream.pos ≤ 2 ^ 31 + 2) (hstate : l.state = parseStateGetPosition)
    (hdata : l.data = []) :
    ((frame.data ≠ [] ∧
        l.stream.pos + lineLength counter frame.data.length ≤ 2 ^ 31 + 2) ∧
      ∃ l', Ends (lineBody fmt) l (.left l') ∧
        l'.stream = (l.stream.setBase .hex).advance (lineLength counter frame.data.length) ∧
        l'.state = parseStateGetEnd ∧ l'.position = counter ∧ l'.id = frame.id ∧
        l'.length.toNat = frame.data.length ∧ l'.data = frame.data) ∨
      (¬(frame.data ≠ [] ∧
          l.stream.pos + lineLength counter frame.data.length ≤ 2 ^ 31 + 2) ∧
        ∃ e, Ends (lineBody fmt) l e ∧ e.Wrong) := by
  have hcounter := counterLength_le counter
  have hlineLength : lineLength counter frame.data.length =
      counterLength counter + 35 + 3 * frame.data.length := rfl
  simp only [printLine, List.append_assoc] at hrest
  -- up to the type
  rcases start_step hfmt hgood hstate hrest (by omega) with ⟨x, hleads₁⟩ | ⟨hfar, hwrong⟩
  swap
  · exact .inr ⟨by omega, hwrong⟩
  obtain ⟨l₁, hl₁⟩ : ∃ l₁ : LineState, l₁ = { l with
      stream := (l.stream.setBase .dec).advance (counterLength counter + 16)
      position := counter
      time := x
      state := parseStateGetId } := ⟨_, rfl⟩
  rw [← hl₁] at hleads₁
  have hgood₁ : l₁.stream.good = true := by rw [hl₁]; exact hgood
  have hpos₁ : l₁.stream.pos = l.stream.pos + (counterLength counter + 16) := by rw [hl₁]; rfl
  have hrest₁ : l₁.stream.rest =
      setw 13 ' ' (setw 8 '0' (NumberBase.hex.print frame.id.toNat)) ++
        (setw 3 ' ' (NumberBase.dec.print frame.data.length) ++
          ' ' :: (' ' :: (frame.data.flatMap printOctet ++ '\n' :: cs))) := by
    rw [hl₁, IStream.rest_advance, IStream.rest_setBase, hrest, ← List.append_assoc,
      ← List.append_assoc]
    refine List.drop_left' ?_
    rw [List.length_append, List.length_append, length_setw_print hfmt, length_setw, length_setw,
      List.length_append]
    rfl
  -- up to the length
  rcases @id_length_step fmt _ l₁ hgood₁ (by rw [hl₁]) frame.id _ hlength hrest₁ (by omega) with
    hleads₂ | ⟨hfar, e, hends, hwrong⟩
  swap
  · exact .inr ⟨by omega, e, hleads₁ _ hends, hwrong⟩
  obtain ⟨l₂, hl₂⟩ : ∃ l₂ : LineState, l₂ = { l₁ with
      stream := (l₁.stream.setBase .hex).advance 16
      id := frame.id
      length := UInt32.ofNat frame.data.length
      state := parseStateGetData } := ⟨_, rfl⟩
  rw [← hl₂] at hleads₂
  have hleads := hleads₁.trans hleads₂
  have hgood₂ : l₂.stream.good = true := by rw [hl₂]; exact hgood₁
  have hpos₂ : l₂.stream.pos = l₁.stream.pos + 16 := by rw [hl₂]; rfl
  have hdata₂ : l₂.data = [] := by rw [hl₂, hl₁]; exact hdata
  have hlength₂ : l₂.length.toNat = frame.data.length := by
    rw [hl₂]
    exact UInt32.toNat_ofNat_of_lt' (show frame.data.length < 2 ^ 32 by omega)
  have hrest₂ : l₂.stream.rest =
      List.replicate 2 ' ' ++ (frame.data.flatMap printOctet ++ '\n' :: cs) := by
    rw [hl₂, IStream.rest_advance, IStream.rest_setBase, hrest₁, ← List.append_assoc]
    refine List.drop_left' ?_
    rw [List.length_append, length_setw_id, length_setw_length hlength]
  -- the data
  rcases @data_step fmt cs _ l₂ hgood₂ (by rw [hl₂]; rfl) (by rw [hl₂])
      (by rw [hdata₂, hlength₂]; simp) hrest₂ (by omega) with
    ⟨⟨hne, hnear⟩, l', hl'⟩ | ⟨hnot, e, hends, hwrong⟩
  · refine .inl ⟨⟨hne, by omega⟩, l', hleads _ hl'.ends, ?_, hl'.state, ?_, ?_, ?_, ?_⟩
    · rw [hl'.stream, hl₂, hl₁]
      simp only [IStream.setBase_advance, IStream.setBase_setBase, IStream.advance_advance]
      congr 1
      omega
    · rw [hl'.position, hl₂, hl₁]
    · rw [hl'.id, hl₂]
    · rw [hl'.length, hlength₂]
    · rw [hl'.data, hdata₂, List.nil_append]
  · exact .inr ⟨fun h => hnot ⟨h.1, by omega⟩, e, hleads _ hends, hwrong⟩

end Line

end J1939
