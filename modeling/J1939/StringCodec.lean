import J1939.GenericCodec

/-!
# Decoding the strings of a frame

The strings of a frame stand one after the other. Decoding one of them fixes where
the next one begins, so the loop of `decodeData` is a parser of strings.
-/

namespace J1939

namespace SPN

/-- The characters of a string SPN. -/
def text : SPN → List UInt8
  | string s => s.value
  | _ => []

end SPN

/-- The bytes from one string to the next, as the `u8` of `getByteSize`. -/
def stringSize (v : List UInt8) : ℕ := (UInt8.ofNat (v.length + 1)).toNat

theorem stringSize_eq (v : List UInt8) : stringSize v = (v.length + 1) % 256 := by
  rw [stringSize, UInt8.toNat_ofNat']

/-- A list of string SPNs in which each one begins where the one before it ends. -/
def SettledFrom : ℕ → List SPN → Prop
  | _, [] => True
  | next, spn :: spns =>
    (∃ s, spn = .string s ∧ s.offset = next) ∧ SettledFrom (next + stringSize spn.text) spns

theorem exists_string_of_settledFrom {next : ℕ} {spns : List SPN} (h : SettledFrom next spns) :
    ∀ spn ∈ spns, ∃ s, spn = .string s := by
  induction spns generalizing next with
  | nil => simp
  | cons spn spns ih =>
    obtain ⟨⟨s, rfl, -⟩, hrest⟩ := h
    rw [List.forall_mem_cons]
    exact ⟨⟨s, rfl⟩, ih hrest⟩

theorem getOffset_of_mem_head? {next : ℕ} {spns : List SPN} (h : SettledFrom next spns) :
    ∀ spn ∈ spns.head?, spn.getOffset = next := by
  cases spns with
  | nil => simp
  | cons spn spns =>
    obtain ⟨⟨s, rfl, hoffset⟩, -⟩ := h
    simpa [SPN.getOffset] using hoffset

theorem recalculateFrom_settled (next : ℕ) {spns : List SPN}
    (hstring : ∀ spn ∈ spns, spn.isString = true) :
    SettledFrom next (recalculateFrom next spns) ∧
      (recalculateFrom next spns).map SPN.text = spns.map SPN.text := by
  induction spns generalizing next with
  | nil => exact ⟨trivial, rfl⟩
  | cons spn spns ih =>
    rw [List.forall_mem_cons] at hstring
    cases spn with
    | numeric n => cases hstring.1
    | status s => cases hstring.1
    | string s =>
      obtain ⟨hsettled, htexts⟩ := ih (next + stringSize s.value) hstring.2
      refine ⟨⟨⟨{ s with offset := next }, rfl, rfl⟩, hsettled⟩, ?_⟩
      exact congrArg (s.value :: ·) htexts

/-- The recomputation behind a string that has been decoded reaches only the later ones. -/
theorem recalculateStringOffsets_append {start : ℕ} {done : List SPN} {s : SPNString}
    {todo : List SPN} (h : SettledFrom start (done ++ [.string s])) :
    recalculateStringOffsets (done ++ .string s :: todo) =
      done ++ .string s :: recalculateFrom (s.offset + stringSize s.value) todo := by
  have hfrom : ∀ (next : ℕ) (ds : List SPN), SettledFrom next (ds ++ [.string s]) →
      recalculateFrom next (ds ++ .string s :: todo) =
        ds ++ .string s :: recalculateFrom (s.offset + stringSize s.value) todo := by
    intro next ds
    induction ds generalizing next with
    | nil =>
      rintro ⟨⟨s', hs', hoffset⟩, -⟩
      cases hs'
      have hmoved : (SPN.string s).setOffset next = .string s := by
        rw [SPN.setOffset, ← hoffset]
      simp only [List.nil_append, recalculateFrom, hmoved]
      rfl
    | cons d ds ih =>
      rintro ⟨⟨s', rfl, hoffset⟩, hrest⟩
      have hmoved : (SPN.string s').setOffset next = .string s' := by
        rw [SPN.setOffset, ← hoffset]
      simp only [List.cons_append, recalculateFrom, hmoved]
      congr 1
      refine Eq.trans ?_ (ih _ hrest)
      change recalculateFrom (s'.offset + stringSize s'.value) _ = _
      rw [hoffset]
      rfl
  cases done with
  | nil => rfl
  | cons d ds =>
    obtain ⟨⟨s', rfl, hoffset⟩, hrest⟩ := h
    rw [List.cons_append, recalculateStringOffsets]
    change SPN.string s' :: recalculateFrom (s'.offset + stringSize s'.value) _ = _
    rw [hoffset]
    exact congrArg _ (hfrom _ ds hrest)

/-- Strings read one after the other from an offset on. -/
def parseStrings (mem : Memory) (length : ℕ) : ℕ → ℕ → Option (List (List UInt8))
  | _, 0 => some []
  | offset, n + 1 =>
    if offset ≥ length then none
    else do
      let v ← SPNString.readString (fun i => mem (offset + i)) (length - offset)
      let vs ← parseStrings mem length (offset + stringSize v) n
      return v :: vs

theorem settledFrom_append {start : ℕ} {a b : List SPN} (h : SettledFrom start (a ++ b)) :
    SettledFrom start a := by
  induction a generalizing start with
  | nil => trivial
  | cons spn a ih =>
    obtain ⟨hspn, hrest⟩ := h
    exact ⟨hspn, ih hrest⟩

/-- Settled strings stay settled when the last one gets another value. -/
theorem settledFrom_concat {start : ℕ} {done : List SPN} {s s' : SPNString}
    (hoffset : s'.offset = s.offset) (h : SettledFrom start (done ++ [.string s])) :
    SettledFrom start (done ++ [.string s']) := by
  induction done generalizing start with
  | nil =>
    obtain ⟨⟨t, ht, hstart⟩, -⟩ := h
    cases ht
    exact ⟨⟨s', rfl, hoffset.trans hstart⟩, trivial⟩
  | cons d ds ih =>
    obtain ⟨hd, hrest⟩ := h
    exact ⟨hd, ih hrest⟩

theorem settledFrom_join {start : ℕ} {done : List SPN} {s : SPNString} {rest : List SPN}
    (h : SettledFrom start (done ++ [.string s]))
    (hrest : SettledFrom (s.offset + stringSize s.value) rest) :
    SettledFrom start (done ++ .string s :: rest) := by
  induction done generalizing start with
  | nil =>
    obtain ⟨⟨t, ht, hstart⟩, -⟩ := h
    cases ht
    refine ⟨⟨s, rfl, hstart⟩, ?_⟩
    rw [← hstart]
    exact hrest
  | cons d ds ih =>
    obtain ⟨hd, hrest'⟩ := h
    exact ⟨hd, ih hrest'⟩

/-- One iteration on a string behind settled ones: it is read, and the later ones find their
offsets. A string that cannot be read is left empty, and the later ones stay where they are. -/
theorem run_decodeAt_string {length start : ℕ} {done : List SPN} {s : SPNString}
    (hsettled : SettledFrom start (done ++ [.string s])) (todo : List SPN) (mem : Memory) :
    (∃ v, ¬s.offset ≥ length ∧
        SPNString.readString (fun i => mem (s.offset + i)) (length - s.offset) = some v ∧
        (decodeAt length done.length).run (done ++ .string s :: todo) mem =
          (.ok (), (done ++ [.string { s with value := v }]) ++
            recalculateFrom (s.offset + stringSize v) todo)) ∨
      (s.offset ≥ length ∧ (decodeAt length done.length).run (done ++ .string s :: todo) mem =
        (.error .spnOffset, done ++ .string s :: todo)) ∨
      (¬s.offset ≥ length ∧
        SPNString.readString (fun i => mem (s.offset + i)) (length - s.offset) = none ∧
        ∃ e, (decodeAt length done.length).run (done ++ .string s :: todo) mem =
          (.error e, done ++ .string { s with value := [] } :: todo) ∧ e.isDecode = true) := by
  have hstep := run_decodeAt length done (.string s) todo mem
  by_cases hend : s.offset ≥ length
  · -- the string begins behind the payload
    have hguard : (SPN.string s).getOffset ≥ length := hend
    rw [if_pos hguard] at hstep
    exact Or.inr (Or.inl ⟨hend, hstep⟩)
  have hguard : ¬(SPN.string s).getOffset ≥ length := hend
  have hoff : (SPN.string s).getOffset = s.offset := rfl
  rw [if_neg hguard, SPN.run_decode_string, hoff] at hstep
  rcases SPNString.run_decode (length - s.offset) s (fun i => mem (s.offset + i)) with
    ⟨v, hread, hrun⟩ | ⟨hread, e, hrun, hdecode⟩
  · rw [hrun] at hstep
    have hsettled' : SettledFrom start (done ++ [.string { s with value := v }]) :=
      @settledFrom_concat start done s { s with value := v } rfl hsettled
    refine Or.inl ⟨v, hend, hread, ?_⟩
    rw [hstep]
    simp only [SPN.isString, if_true]
    rw [recalculateStringOffsets_append hsettled', List.append_assoc, List.singleton_append]
  · rw [hrun] at hstep
    exact Or.inr (Or.inr ⟨hend, hread, e, hstep, hdecode⟩)

theorem settledFrom_take {start : ℕ} {a b : List SPN} (h : SettledFrom start (a ++ b)) (n : ℕ) :
    SettledFrom start (a ++ b.take n) := by
  refine @settledFrom_append start _ (b.drop n) ?_
  rw [List.append_assoc, List.take_append_drop]
  exact h

/-- A string that has been read is settled together with the later ones, which have moved. -/
theorem settledFrom_decoded {start : ℕ} {done todo : List SPN} {s : SPNString}
    (h : SettledFrom start (done ++ [.string s]))
    (hstring : ∀ spn ∈ todo, spn.isString = true) (v : List UInt8) :
    SettledFrom start ((done ++ [.string { s with value := v }]) ++
      recalculateFrom (s.offset + stringSize v) todo) := by
  have hdone : SettledFrom start (done ++ [.string { s with value := v }]) :=
    @settledFrom_concat start done s { s with value := v } rfl h
  rw [List.append_assoc, List.singleton_append]
  exact settledFrom_join hdone (recalculateFrom_settled (s.offset + stringSize v) hstring).1

theorem isString_of_settledFrom {next : ℕ} {spns : List SPN} (h : SettledFrom next spns) :
    ∀ spn ∈ spns, spn.isString = true := by
  intro spn hspn
  obtain ⟨s, rfl⟩ := exists_string_of_settledFrom h spn hspn
  rfl

/-- One round of the loop: the string is read and the loop goes on with the later ones, which
have moved behind it, or the exception of the string ends it. -/
theorem run_decodeRest_string {length start : ℕ} {done : List SPN} {s : SPNString}
    (hsettled : SettledFrom start (done ++ [.string s])) (todo : List SPN) (mem : Memory) :
    (∃ v, ¬s.offset ≥ length ∧
        SPNString.readString (fun i => mem (s.offset + i)) (length - s.offset) = some v ∧
        (decodeRest length done (.string s :: todo)).run (done ++ .string s :: todo) mem =
          (decodeRest length (done ++ [.string { s with value := v }])
            (recalculateFrom (s.offset + stringSize v) todo)).run
              ((done ++ [.string { s with value := v }]) ++
                recalculateFrom (s.offset + stringSize v) todo) mem) ∨
      (s.offset ≥ length ∧
        (decodeRest length done (.string s :: todo)).run (done ++ .string s :: todo) mem =
          (.error .spnOffset, done ++ .string s :: todo)) ∨
      (¬s.offset ≥ length ∧
        SPNString.readString (fun i => mem (s.offset + i)) (length - s.offset) = none ∧
        ∃ e, (decodeRest length done (.string s :: todo)).run (done ++ .string s :: todo) mem =
          (.error e, done ++ .string { s with value := [] } :: todo) ∧ e.isDecode = true) := by
  rcases run_decodeAt_string hsettled todo mem with
    ⟨v, hend, hread, hstep⟩ | ⟨hend, hstep⟩ | ⟨hend, hread, e, hstep, hdecode⟩
  · have hlength := length_recalculateFrom (s.offset + stringSize v) todo
    refine .inl ⟨v, hend, hread, ?_⟩
    rw [decodeRest_cons length done (.string s) (.string { s with value := v }) todo
      (recalculateFrom (s.offset + stringSize v) todo) hlength]
    exact Method.run_bind_of_ok hstep
  · refine .inr (.inl ⟨hend, ?_⟩)
    rw [decodeRest_cons length done (.string s) (.string s) todo todo rfl]
    exact Method.run_bind_of_error hstep
  · refine .inr (.inr ⟨hend, hread, e, ?_, hdecode⟩)
    rw [decodeRest_cons length done (.string s) (.string s) todo todo rfl]
    exact Method.run_bind_of_error hstep

/-- The loop of `decodeData` parses the strings that are left, wherever those behind
the next one were before. -/
theorem run_decodeRest_strings {length start : ℕ} (done todo : List SPN) {offset : ℕ}
    (hstring : ∀ spn ∈ todo, spn.isString = true)
    (hsettled : SettledFrom start (done ++ todo.take 1))
    (hoffset : ∀ spn ∈ todo.head?, spn.getOffset = offset) (mem : Memory) :
    (∃ vs todo', parseStrings mem length offset todo.length = some vs ∧
        (decodeRest length done todo).run (done ++ todo) mem = (.ok (), done ++ todo') ∧
        todo'.map SPN.text = vs ∧ todo'.length = todo.length) ∨
      (parseStrings mem length offset todo.length = none ∧ ∃ e st,
        (decodeRest length done todo).run (done ++ todo) mem = (.error e, st) ∧
          e.isDecode = true) := by
  induction htodo : todo.length generalizing done todo offset with
  | zero =>
    obtain rfl := List.length_eq_zero_iff.mp htodo
    exact Or.inl ⟨[], [], rfl, rfl, rfl, rfl⟩
  | succ n ih =>
    obtain _ | ⟨spn, todo⟩ := todo
    · cases htodo
    have hprefix : SettledFrom start (done ++ [spn]) := hsettled
    obtain ⟨s, rfl⟩ := exists_string_of_settledFrom hprefix spn (by simp)
    rw [List.forall_mem_cons] at hstring
    obtain rfl : s.offset = offset := hoffset _ rfl
    rw [parseStrings]
    rcases @run_decodeRest_string length start done s hprefix todo mem with
      ⟨v, hend, hread, hrun⟩ | ⟨hend, hrun⟩ | ⟨hend, hread, e, hrun, hdecode⟩
    · rw [if_neg hend, hread, hrun]
      obtain ⟨hrest, -⟩ := recalculateFrom_settled (s.offset + stringSize v) hstring.2
      have hlength := length_recalculateFrom (s.offset + stringSize v) todo
      have hnext := settledFrom_take (settledFrom_decoded hprefix hstring.2 v) 1
      rcases ih _ _ (isString_of_settledFrom hrest) hnext (getOffset_of_mem_head? hrest)
          (hlength.trans (Nat.succ.inj htodo)) with
        ⟨vs, todo', hparse, hrun', hvs, hlen⟩ | ⟨hparse, e, st, hrun', hdecode⟩
      · refine Or.inl ⟨v :: vs, .string { s with value := v } :: todo', by simp [hparse], ?_, ?_,
          congrArg (· + 1) hlen⟩
        · rw [hrun', List.append_assoc]
          rfl
        · exact congrArg (v :: ·) hvs
      · exact Or.inr ⟨by simp [hparse], e, st, hrun', hdecode⟩
    · exact Or.inr ⟨if_pos hend, .spnOffset, done ++ .string s :: todo, hrun, rfl⟩
    · refine Or.inr ⟨?_, e, done ++ .string { s with value := [] } :: todo, hrun, hdecode⟩
      rw [if_neg hend, hread]
      rfl

/-- The first of some strings is settled. -/
theorem settledFrom_take_one {start : ℕ} {spns : List SPN}
    (hstring : ∀ spn ∈ spns, spn.isString = true)
    (hstart : ∀ spn ∈ spns.head?, spn.getOffset = start) :
    SettledFrom start ([] ++ spns.take 1) := by
  obtain _ | ⟨spn, spns⟩ := spns
  · trivial
  cases spn with
  | numeric n => cases hstring _ (List.mem_cons_self ..)
  | status s => cases hstring _ (List.mem_cons_self ..)
  | string s => exact ⟨⟨s, rfl, hstart _ rfl⟩, trivial⟩

/-- `decodeData` on a frame of strings parses them from the offset of the first one. -/
theorem run_decodeSpns_strings {length start : ℕ} {spns : List SPN}
    (hstring : ∀ spn ∈ spns, spn.isString = true)
    (hstart : ∀ spn ∈ spns.head?, spn.getOffset = start) (mem : Memory) :
    (∃ vs spns', parseStrings mem length start spns.length = some vs ∧
        (decodeSpns length).run spns mem = (.ok (), spns') ∧ spns'.map SPN.text = vs ∧
        spns'.length = spns.length) ∨
      (parseStrings mem length start spns.length = none ∧ ∃ e st,
        (decodeSpns length).run spns mem = (.error e, st) ∧ e.isDecode = true) := by
  have hrun := @run_decodeRest_strings length start [] spns start hstring
    (settledFrom_take_one hstring hstart) hstart mem
  rw [decodeSpns_eq]
  exact hrun

end J1939
