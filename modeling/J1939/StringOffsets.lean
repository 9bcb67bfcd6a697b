import J1939.FrameOperations
import J1939.Lib.Runs

/-!
# The offsets of strings

The offsets of the strings of a frame are kept up to date by their owner. They are the sums of the
sizes before them as long as every string but the last one has at most 254 characters, and no call
changes a string without telling the owner.
-/

namespace J1939

/-! ### Exact and sound offsets -/

/-- Each offset is the sum of the sizes before it. -/
def ExactFrom : ℕ → List SPN → Prop
  | _, [] => True
  | next, spn :: spns => spn.getOffset = next ∧ ExactFrom (next + (spn.text.length + 1)) spns

/-- Every string but the last one has at most 254 characters. -/
def ShortBeforeLast : List (List UInt8) → Prop
  | [] => True
  | v :: vs => (vs = [] ∨ v.length < 255) ∧ ShortBeforeLast vs

/-- Strings with exact offsets that stay exact when they are computed again. -/
structure SoundFrom (next : ℕ) (spns : List SPN) : Prop where
  settled : SettledFrom next spns
  short : ShortBeforeLast (spns.map SPN.text)

theorem exactFrom_append {next : ℕ} {a b : List SPN} :
    ExactFrom next (a ++ b) ↔
      ExactFrom next a ∧ ExactFrom (next + (a.map fun spn => spn.text.length + 1).sum) b := by
  induction a generalizing next with
  | nil => simp [ExactFrom]
  | cons spn a ih =>
    rw [List.cons_append, ExactFrom, ih, ExactFrom, List.map_cons, List.sum_cons,
      Nat.add_assoc next (spn.text.length + 1), and_assoc]

/-- An SPN begins behind the terminator of the one before it. -/
theorem ExactFrom.getOffset_next {next : ℕ} {a b : List SPN} {x y : SPN}
    (h : ExactFrom next (a ++ x :: y :: b)) : y.getOffset = x.getOffset + (x.text.length + 1) := by
  obtain ⟨hx, hy, -⟩ := (exactFrom_append.mp h).2
  rw [hx]
  exact hy

/-- The size in a byte is the real one when it is not too large. -/
theorem stringSize_eq_iff (v : List UInt8) : stringSize v = v.length + 1 ↔ v.length < 255 := by
  rw [stringSize_eq]
  omega

/-- Offsets that follow from the sizes in bytes are exact when no size but the last one wraps. -/
theorem exactFrom_settled_iff {next : ℕ} {spns : List SPN} (h : SettledFrom next spns) :
    ExactFrom next spns ↔ ShortBeforeLast (spns.map SPN.text) := by
  induction spns generalizing next with
  | nil => exact Iff.rfl
  | cons spn spns ih =>
    obtain ⟨⟨s, rfl, hoffset⟩, hrest⟩ := h
    change s.offset = next ∧ ExactFrom (next + (s.value.length + 1)) spns ↔
      (spns.map SPN.text = [] ∨ s.value.length < 255) ∧ ShortBeforeLast (spns.map SPN.text)
    have hrest' : SettledFrom (next + stringSize s.value) spns := hrest
    rw [and_iff_right hoffset]
    by_cases hshort : s.value.length < 255
    · rw [(stringSize_eq_iff s.value).mpr hshort] at hrest'
      rw [ih hrest', and_iff_right (Or.inr hshort)]
    · cases spns with
      | nil => exact iff_of_true trivial ⟨Or.inl rfl, trivial⟩
      | cons other spns =>
        obtain ⟨⟨t, rfl, hnext⟩, -⟩ := hrest'
        refine iff_of_false ?_ (by simp [hshort])
        rintro ⟨hexact, -⟩
        have hexact' : t.offset = next + (s.value.length + 1) := hexact
        exact hshort ((stringSize_eq_iff s.value).mp (by omega))

theorem SoundFrom.exact {next : ℕ} {spns : List SPN} (h : SoundFrom next spns) :
    ExactFrom next spns := (exactFrom_settled_iff h.settled).mpr h.short

/-- The next string of sound ones begins behind the terminator of the first one. -/
theorem SoundFrom.tail {next : ℕ} {s : SPNString} {spns : List SPN}
    (h : SoundFrom next (.string s :: spns)) :
    s.offset = next ∧ SoundFrom (next + (s.value.length + 1)) spns := by
  obtain ⟨⟨⟨t, ht, hoffset⟩, hrest⟩, hlast, hshort⟩ := h
  cases ht
  have hrest' : SettledFrom (next + stringSize s.value) spns := hrest
  refine ⟨hoffset, ?_, hshort⟩
  rcases hlast with hnone | hlt
  · rw [List.map_eq_nil_iff] at hnone
    rw [hnone]
    trivial
  · rw [(stringSize_eq_iff s.value).mpr hlt] at hrest'
    exact hrest'

theorem shortBeforeLast_append {a b : List (List UInt8)} (h : ShortBeforeLast (a ++ b)) :
    ShortBeforeLast a := by
  induction a with
  | nil => trivial
  | cons v a ih =>
    obtain ⟨hlast, hrest⟩ := h
    exact ⟨hlast.imp_left fun hnil => (List.append_eq_nil_iff.mp hnil).1, ih hrest⟩

theorem SoundFrom.append {next : ℕ} {a b : List SPN} (h : SoundFrom next (a ++ b)) :
    SoundFrom next a := by
  refine ⟨settledFrom_append h.settled, shortBeforeLast_append (b := b.map SPN.text) ?_⟩
  rw [← List.map_append]
  exact h.short

/-- A short string in front, or any string with nothing behind it. -/
theorem SoundFrom.cons {next : ℕ} {s : SPNString} {spns : List SPN} (hoffset : s.offset = next)
    (hlast : spns = [] ∨ s.value.length < 255)
    (hrest : SoundFrom (next + (s.value.length + 1)) spns) :
    SoundFrom next (.string s :: spns) := by
  refine ⟨⟨⟨s, rfl, hoffset⟩, ?_⟩, ?_, hrest.short⟩
  · change SettledFrom (next + stringSize s.value) spns
    rcases hlast with rfl | hlt
    · trivial
    · rw [(stringSize_eq_iff s.value).mpr hlt]
      exact hrest.settled
  · rcases hlast with rfl | hlt
    · exact Or.inl rfl
    · exact Or.inr hlt

namespace GenericFrame

/-- The offset of each SPN is the sum of the sizes of all SPNs with smaller numbers. -/
def OffsetsExact (f : GenericFrame) : Prop :=
  ∀ number spn, f.spns.find? number = some spn →
    spn.getOffset =
      ((f.spns.entries.filter fun e => e.1 < number).map fun e => e.2.text.length + 1).sum

/-- A frame of strings with sound offsets. -/
def Sound (f : GenericFrame) : Prop := SoundFrom 0 f.spns.values

end GenericFrame

/-- The sums over smaller numbers, in a sorted list behind others with smaller numbers. -/
theorem exactFrom_iff_sum {entries : List (UInt32 × SPN)}
    (hsorted : entries.Pairwise fun a b => a.1 < b.1) (next : ℕ) :
    ExactFrom next (entries.map Prod.snd) ↔ ∀ e ∈ entries, e.2.getOffset =
      next + ((entries.filter fun x => x.1 < e.1).map fun x => x.2.text.length + 1).sum := by
  induction entries generalizing next with
  | nil => simp [ExactFrom]
  | cons e entries ih =>
    obtain ⟨hfirst, hrest⟩ := List.pairwise_cons.mp hsorted
    rw [List.map_cons, ExactFrom, ih hrest, List.forall_mem_cons]
    have hnone : (e :: entries).filter (fun x => x.1 < e.1) = [] := by
      rw [List.filter_eq_nil_iff, List.forall_mem_cons]
      refine ⟨by simp, fun x hx => ?_⟩
      have hlt := hfirst x hx
      simp [hlt.le]
    have hlater : ∀ x ∈ entries,
        (((e :: entries).filter fun y => y.1 < x.1).map fun y => y.2.text.length + 1).sum =
          (e.2.text.length + 1) +
            ((entries.filter fun y => y.1 < x.1).map fun y => y.2.text.length + 1).sum := by
      intro x hx
      rw [List.filter_cons_of_pos (by simpa using hfirst x hx), List.map_cons, List.sum_cons]
    rw [hnone]
    refine and_congr Iff.rfl (forall₂_congr fun x hx => ?_)
    rw [hlater x hx, Nat.add_assoc]

theorem GenericFrame.offsetsExact_iff (f : GenericFrame) :
    f.OffsetsExact ↔ ExactFrom 0 f.spns.values := by
  rw [SortedMap.values, exactFrom_iff_sum f.spns.sorted]
  simp only [Nat.zero_add]
  constructor
  · intro h e he
    exact h e.1 e.2 (SortedMap.find?_of_mem he)
  · intro h number spn hfind
    exact h (number, spn) (SortedMap.mem_entries_iff.mpr hfind)

/-! ### Registering and assigning -/

/-- The first SPN begins at offset 0. -/
def StartsAtZero (m : SortedMap UInt32 SPN) : Prop :=
  ∀ i spn, m.find? i = some spn → (∀ j other, m.find? j = some other → i ≤ j) →
    spn.getOffset = 0

/-- Every string that another one follows has at most 254 characters. -/
def ShortBefore (m : SortedMap UInt32 SPN) : Prop :=
  ∀ i spn j other, m.find? i = some spn → m.find? j = some other → i < j → spn.text.length < 255

theorem startsAtZero_iff (m : SortedMap UInt32 SPN) :
    StartsAtZero m ↔ ∀ spn ∈ m.values.head?, spn.getOffset = 0 := by
  obtain ⟨entries, hsorted⟩ := m
  cases entries with
  | nil => simp [StartsAtZero, SortedMap.values, SortedMap.find?, SortedMap.findIn]
  | cons e entries =>
    obtain ⟨hfirst, -⟩ := List.pairwise_cons.mp hsorted
    set m : SortedMap UInt32 SPN := ⟨e :: entries, hsorted⟩ with hm
    have hhead : m.find? e.1 = some e.2 := SortedMap.find?_of_mem (List.mem_cons_self ..)
    have hleast : ∀ j other, m.find? j = some other → e.1 ≤ j := by
      intro j other hfind
      rcases List.mem_cons.mp (SortedMap.mem_entries_iff.mpr hfind) with heq | hmem
      · rw [← heq]
      · exact (hfirst _ hmem).le
    have hvalues : m.values.head? = some e.2 := rfl
    rw [hvalues]
    constructor
    · intro h spn hspn
      cases hspn
      exact h e.1 e.2 hhead hleast
    · intro h i spn hfind hall
      have hi : i = e.1 := le_antisymm (hall e.1 e.2 hhead) (hleast i spn hfind)
      rw [hi, hhead] at hfind
      cases hfind
      exact h e.2 rfl

theorem shortBeforeLast_iff_find? (m : SortedMap UInt32 SPN) :
    ShortBeforeLast (m.values.map SPN.text) ↔ ShortBefore m := by
  have hlist : ∀ entries : List (UInt32 × SPN), entries.Pairwise (fun a b => a.1 < b.1) →
      (ShortBeforeLast ((entries.map Prod.snd).map SPN.text) ↔
        ∀ a ∈ entries, ∀ b ∈ entries, a.1 < b.1 → a.2.text.length < 255) := by
    intro entries hsorted
    induction entries with
    | nil => simp [ShortBeforeLast]
    | cons e entries ih =>
      obtain ⟨hfirst, hrest⟩ := List.pairwise_cons.mp hsorted
      rw [List.map_cons, List.map_cons, ShortBeforeLast, ih hrest]
      constructor
      · rintro ⟨hlast, hshort⟩ a ha b hb hlt
        rcases List.mem_cons.mp ha with rfl | ha'
        · rcases List.mem_cons.mp hb with rfl | hb'
          · exact absurd hlt (lt_irrefl _)
          · refine hlast.resolve_left fun hnil => ?_
            rw [List.map_eq_nil_iff, List.map_eq_nil_iff] at hnil
            rw [hnil] at hb'
            cases hb'
        · rcases List.mem_cons.mp hb with rfl | hb'
          · exact absurd (hfirst a ha') (lt_asymm hlt)
          · exact hshort a ha' b hb' hlt
      · intro h
        refine ⟨?_, fun a ha b hb => h a (List.mem_cons_of_mem _ ha) b (List.mem_cons_of_mem _ hb)⟩
        cases entries with
        | nil => exact Or.inl rfl
        | cons b entries =>
          have hb : b ∈ e :: b :: entries := List.mem_cons_of_mem _ (List.mem_cons_self ..)
          exact Or.inr (h e (List.mem_cons_self ..) b hb (hfirst b (List.mem_cons_self ..)))
  rw [SortedMap.values, hlist _ m.sorted]
  constructor
  · intro h i spn j other hi hj hlt
    exact h (i, spn) (SortedMap.mem_entries_iff.mpr hi) (j, other)
      (SortedMap.mem_entries_iff.mpr hj) hlt
  · intro h a ha b hb hlt
    exact h a.1 a.2 b.1 b.2 (SortedMap.find?_of_mem ha) (SortedMap.find?_of_mem hb) hlt

/-- What the recomputation of the offsets makes of a map of strings. -/
theorem exact_recalculated_iff (f : GenericFrame) {m : SortedMap UInt32 SPN}
    (hstring : ∀ spn ∈ m.values, spn.isString = true) :
    (GenericFrame.OffsetsExact
        { f with spns := m.setValues (recalculateStringOffsets m.values) } ↔
        StartsAtZero m ∧ ShortBefore m) ∧
      (StartsAtZero m → ShortBefore m → GenericFrame.Sound
        { f with spns := m.setValues (recalculateStringOffsets m.values) }) := by
  obtain ⟨hsettled, hfirst, htexts⟩ := recalculateStringOffsets_settled hstring
  have hvalues : (m.setValues (recalculateStringOffsets m.values)).values =
      recalculateStringOffsets m.values :=
    SortedMap.values_setValues (length_recalculateStringOffsets _)
  have hhead : ∀ spn ∈ m.values.head?, spn.getOffset = firstOffset m.values :=
    getOffset_of_mem_head?_firstOffset _
  have hzero : StartsAtZero m → SettledFrom 0 (recalculateStringOffsets m.values) := by
    rw [startsAtZero_iff]
    intro hstart
    cases hm : m.values with
    | nil => trivial
    | cons spn spns =>
      rw [hm] at hsettled hhead hstart
      rw [← hhead spn rfl, hstart spn rfl] at hsettled
      exact hsettled
  rw [GenericFrame.offsetsExact_iff, GenericFrame.Sound]
  simp only [hvalues]
  refine ⟨⟨fun hexact => ?_, fun ⟨hstart, hshort⟩ => ?_⟩, fun hstart hshort =>
    ⟨hzero hstart, by rw [htexts]; exact (shortBeforeLast_iff_find? m).mpr hshort⟩⟩
  · have hstart : StartsAtZero m := by
      rw [startsAtZero_iff]
      cases hm : m.values with
      | nil => simp
      | cons spn spns =>
        rw [hm] at hexact
        intro spn' hspn'
        cases hspn'
        exact hexact.1
    refine ⟨hstart, (shortBeforeLast_iff_find? m).mp ?_⟩
    rw [← htexts]
    exact (exactFrom_settled_iff (hzero hstart)).mp hexact
  · rw [exactFrom_settled_iff (hzero hstart), htexts]
    exact (shortBeforeLast_iff_find? m).mpr hshort

section Insert

variable {m : SortedMap UInt32 SPN} {k : UInt32} {spn : SPN}

/-- A new first SPN must begin at offset 0. -/
theorem startsAtZero_insert_iff (h : StartsAtZero m) (hnone : m.find? k = none) :
    StartsAtZero (m.insert k spn) ↔
      ((∀ j other, m.find? j = some other → k < j) → spn.getOffset = 0) := by
  have hne : ∀ j other, m.find? j = some other → j ≠ k := by
    rintro j other hfind rfl
    rw [hnone] at hfind
    cases hfind
  constructor
  · intro hstart hfirst
    refine hstart k spn (by rw [SortedMap.find?_insert, if_pos rfl]) fun j other hj => ?_
    rw [SortedMap.find?_insert] at hj
    split_ifs at hj with heq
    · exact heq.ge
    · exact (hfirst j other hj).le
  · intro hzero i other hi hleast
    have hold : ∀ j x, m.find? j = some x → i ≤ j := fun j x hj =>
      hleast j x (by rw [SortedMap.find?_insert, if_neg (hne j x hj), hj])
    rw [SortedMap.find?_insert] at hi
    split_ifs at hi with heq
    · cases hi
      refine hzero fun j x hj => lt_of_le_of_ne ?_ (hne j x hj).symm
      rw [← heq]
      exact hold j x hj
    · exact h i other hi hold

/-- An SPN that keeps its offset keeps the first one at 0. -/
theorem startsAtZero_insert (h : StartsAtZero m) {old : SPN} (hfind : m.find? k = some old)
    (hoffset : spn.getOffset = old.getOffset) : StartsAtZero (m.insert k spn) := by
  intro i other hi hleast
  have hold : ∀ j x, m.find? j = some x → i ≤ j := by
    intro j x hj
    by_cases heq : j = k
    · exact hleast j spn (by rw [SortedMap.find?_insert, if_pos heq])
    · exact hleast j x (by rw [SortedMap.find?_insert, if_neg heq, hj])
  rw [SortedMap.find?_insert] at hi
  split_ifs at hi with heq
  · cases hi
    rw [hoffset]
    exact h k old hfind (heq ▸ hold)
  · exact h i other hi hold

/-- Only the last string may be long, be it the new one or another. -/
theorem shortBefore_insert_iff (h : ShortBefore m) :
    ShortBefore (m.insert k spn) ↔ ∀ j other, m.find? j = some other →
      (k < j → spn.text.length < 255) ∧ (j < k → other.text.length < 255) := by
  constructor
  · intro hshort j other hj
    have hself : (m.insert k spn).find? k = some spn := by rw [SortedMap.find?_insert, if_pos rfl]
    have hother : j ≠ k → (m.insert k spn).find? j = some other := fun hne => by
      rw [SortedMap.find?_insert, if_neg hne, hj]
    exact ⟨fun hlt => hshort k spn j other hself (hother hlt.ne') hlt,
      fun hlt => hshort j other k spn (hother hlt.ne) hself hlt⟩
  · intro hall i x j y hi hj hlt
    rw [SortedMap.find?_insert] at hi hj
    split_ifs at hi hj with hik hjk hjk
    · rw [hik, hjk] at hlt
      exact absurd hlt (lt_irrefl _)
    · cases hi
      rw [hik] at hlt
      exact (hall j y hj).1 hlt
    · rw [hjk] at hlt
      exact (hall i x hi).2 hlt
    · exact h i x j y hi hj hlt

end Insert

namespace GenericFrame

variable {f : GenericFrame}

theorem Sound.isString (h : f.Sound) : ∀ spn ∈ f.spns.values, spn.isString = true :=
  isString_of_settledFrom h.settled

theorem Sound.startsAtZero (h : f.Sound) : StartsAtZero f.spns :=
  (startsAtZero_iff f.spns).mpr (getOffset_of_mem_head? h.settled)

theorem Sound.shortBefore (h : f.Sound) : ShortBefore f.spns :=
  (shortBeforeLast_iff_find? f.spns).mp h.short

theorem Sound.offsetsExact (h : f.Sound) : f.OffsetsExact := f.offsetsExact_iff.mpr h.exact

/-- Registering a string. A taken number changes nothing. A new string must begin at offset 0 if it
becomes the first one, and only the last string may have more than 254 characters. -/
def RegisterKeeps (f : GenericFrame) (s : SPNString) : Prop :=
  f.spns.find? s.spec.spnNumber = none →
    ((∀ j other, f.spns.find? j = some other → s.spec.spnNumber < j) → s.offset = 0) ∧
      ∀ j other, f.spns.find? j = some other →
        (s.spec.spnNumber < j → s.value.length < 255) ∧
          (j < s.spec.spnNumber → other.text.length < 255)

theorem Sound.registerSPN (h : f.Sound) (s : SPNString) :
    ((f.registerSPN (.string s)).OffsetsExact ↔ f.RegisterKeeps s) ∧
      ((f.registerSPN (.string s)).OffsetsExact → (f.registerSPN (.string s)).Sound) := by
  rw [registerSPN_eq_ite, if_pos (show (SPN.string s).isString = true from rfl), RegisterKeeps]
  cases hfind : f.spns.find? s.spec.spnNumber with
  | some old =>
    rw [@registeredSpns_of_some (.string s) f.spns old hfind]
    obtain ⟨hiff, hsound⟩ := exact_recalculated_iff f h.isString
    refine ⟨iff_of_true (hiff.mpr ⟨h.startsAtZero, h.shortBefore⟩) nofun, fun _ => ?_⟩
    exact hsound h.startsAtZero h.shortBefore
  | none =>
    rw [@registeredSpns_of_none (.string s) f.spns hfind]
    obtain ⟨hiff, hsound⟩ := exact_recalculated_iff f
      (@forall_values_insert f.spns s.spec.spnNumber (.string s) _ h.isString rfl)
    refine ⟨hiff.trans ?_, fun hexact => hsound (hiff.mp hexact).1 (hiff.mp hexact).2⟩
    rw [startsAtZero_insert_iff h.startsAtZero hfind, shortBefore_insert_iff h.shortBefore]
    exact (imp_iff_right rfl).symm

/-- Assigning a value. A long value must go to the last string, or be refused. -/
def SetValueKeeps (f : GenericFrame) (number : UInt32) (value : List UInt8) : Prop :=
  ∀ old j other, f.spns.find? number = some old → f.spns.find? j = some other → number < j →
    value.all SPNString.isAscii = true → value.length < 255

theorem Sound.setStringValue (h : f.Sound) (number : UInt32) (value : List UInt8) :
    ((f.setStringValue number value).OffsetsExact ↔ f.SetValueKeeps number value) ∧
      ((f.setStringValue number value).OffsetsExact → (f.setStringValue number value).Sound) := by
  rw [GenericFrame.setStringValue]
  cases hfind : f.spns.find? number with
  | none =>
    refine ⟨iff_of_true h.offsetsExact fun old j other hold => ?_, fun _ => h⟩
    rw [hfind] at hold
    cases hold
  | some old =>
    obtain ⟨s, rfl⟩ := SPN.exists_string
      (h.isString old (List.mem_map_of_mem (SortedMap.mem_entries_iff.mpr hfind)))
    by_cases hascii : value.all SPNString.isAscii = true
    · simp only [if_pos hascii]
      have hvalue : s.setValue value = { s with value := value } := if_pos hascii
      rw [hvalue]
      obtain ⟨hiff, hsound⟩ := exact_recalculated_iff f
        (@forall_values_insert f.spns number (.string { s with value := value }) _ h.isString rfl)
      refine ⟨hiff.trans ?_, fun hexact => hsound (hiff.mp hexact).1 (hiff.mp hexact).2⟩
      have hstart : StartsAtZero (f.spns.insert number (.string { s with value := value })) :=
        startsAtZero_insert h.startsAtZero hfind rfl
      rw [and_iff_right hstart, shortBefore_insert_iff h.shortBefore]
      constructor
      · intro hall old j other _ hj hlt _
        exact (hall j other hj).1 hlt
      · intro hkeeps j other hj
        exact ⟨fun hlt => hkeeps _ j other hfind hj hlt hascii,
          fun hlt => h.shortBefore j other number _ hj hfind hlt⟩
    · simp only [if_neg hascii]
      refine ⟨iff_of_true h.offsetsExact fun _ _ _ _ _ _ hyes => ?_, fun _ => h⟩
      exact absurd hyes hascii

/-- Deleting a string. It must be the last one. -/
def DeleteKeeps (f : GenericFrame) (number : UInt32) : Prop :=
  ∀ old j other, f.spns.find? number = some old → f.spns.find? j = some other → j ≤ number

theorem Sound.deleteSPN (h : f.Sound) (number : UInt32) :
    ((f.deleteSPN number).1.OffsetsExact ↔ f.DeleteKeeps number) ∧
      ((f.deleteSPN number).1.OffsetsExact → (f.deleteSPN number).1.Sound) := by
  rw [GenericFrame.deleteSPN]
  cases hfind : f.spns.find? number with
  | none =>
    refine ⟨iff_of_true h.offsetsExact fun old j other hold => ?_, fun _ => h⟩
    rw [hfind] at hold
    cases hold
  | some old =>
    obtain ⟨before, after, hsplit, hbefore, hafter, herase, -⟩ := SortedMap.exists_split hfind
    have hsound : SoundFrom 0 (before.map Prod.snd ++ old :: after.map Prod.snd) := by
      rw [Sound, SortedMap.values, hsplit, List.map_append, List.map_cons] at h
      exact h
    have hvalues : (f.spns.erase number).values = before.map Prod.snd ++ after.map Prod.snd := by
      rw [SortedMap.values, herase, List.map_append]
    rw [offsetsExact_iff, Sound]
    simp only [hvalues]
    cases after with
    | nil =>
      have hkept : SoundFrom 0 (before.map Prod.snd ++ []) := by
        rw [List.append_nil]
        exact hsound.append
      refine ⟨iff_of_true hkept.exact fun _ j other _ hj => ?_, fun _ => hkept⟩
      have hmem := SortedMap.mem_entries_iff.mpr hj
      rw [hsplit] at hmem
      rcases List.mem_append.mp hmem with hmem | hmem
      · exact (hbefore _ hmem).le
      · exact (congrArg Prod.fst (List.mem_singleton.mp hmem)).le
    | cons next after =>
      -- the next string still stands behind the deleted one
      have hwrong : ¬ExactFrom 0 (before.map Prod.snd ++ (next :: after).map Prod.snd) := by
        intro hexact
        have hthere := (exactFrom_append.mp hsound.exact).2.2.1
        have hhere := (exactFrom_append.mp hexact).2.1
        omega
      refine ⟨iff_of_false hwrong fun hkeeps => ?_, fun hexact => absurd hexact hwrong⟩
      have hnext : f.spns.find? next.1 = some next.2 := by
        apply SortedMap.find?_of_mem
        rw [hsplit]
        simp
      exact absurd (hkeeps old next.1 next.2 hfind hnext)
        (not_le.mpr (hafter next (List.mem_cons_self ..)))

end GenericFrame

/-! ### Copying -/

/-- Copying the values of other SPNs. A string that others follow must keep its length. -/
def CopyKeeps (sameSpec : SPN → SPN → Bool) : List SPN → List SPN → Prop
  | spn :: spns, other :: others => sameSpec spn other = true →
    (spns ≠ [] → other.isString = true → other.text.length = spn.text.length) ∧
      CopyKeeps sameSpec spns others
  | _, _ => True

theorem SPN.getOffset_copy (spn other : SPN) : (spn.copy other).getOffset = spn.getOffset := by
  cases spn <;> cases other <;> rfl

theorem copySpns_eq_nil_iff {sameSpec : SPN → SPN → Bool} {spns others : List SPN} :
    copySpns sameSpec spns others = [] ↔ spns = [] := by
  cases spns with
  | nil => cases others <;> simp [copySpns]
  | cons spn spns =>
    cases others with
    | nil => simp [copySpns]
    | cons other others =>
      rw [copySpns]
      split_ifs <;> simp

theorem getOffset_head?_copySpns (sameSpec : SPN → SPN → Bool) (spns others : List SPN) :
    (copySpns sameSpec spns others).head?.map SPN.getOffset = spns.head?.map SPN.getOffset := by
  cases spns with
  | nil => cases others <;> rfl
  | cons spn spns =>
    cases others with
    | nil => rfl
    | cons other others =>
      rw [copySpns]
      split_ifs
      · exact congrArg some (spn.getOffset_copy other)
      · rfl

/-- The first of copied strings keeps its offset. -/
theorem ExactFrom.getOffset_of_copySpns {next : ℕ} {sameSpec : SPN → SPN → Bool} {spn : SPN}
    {spns others : List SPN} (h : ExactFrom next (copySpns sameSpec (spn :: spns) others)) :
    spn.getOffset = next := by
  have hhead := getOffset_head?_copySpns sameSpec (spn :: spns) others
  cases hcopied : copySpns sameSpec (spn :: spns) others with
  | nil => exact absurd (copySpns_eq_nil_iff.mp hcopied) (List.cons_ne_nil _ _)
  | cons copied rest =>
    rw [hcopied] at h hhead
    exact (Option.some.inj hhead).symm.trans h.1

/-- A string that is copied keeps its length when the other SPN has it too. -/
theorem SPN.copy_string (s : SPNString) (other : SPN) :
    ∃ s', (SPN.string s).copy other = .string s' ∧ s'.offset = s.offset ∧
      (s'.value.length = s.value.length ↔
        (other.isString = true → other.text.length = s.value.length)) := by
  cases other with
  | numeric n => exact ⟨s, rfl, rfl, iff_of_true rfl nofun⟩
  | status n => exact ⟨s, rfl, rfl, iff_of_true rfl nofun⟩
  | string t => exact ⟨{ s with value := t.value }, rfl, rfl, (imp_iff_right rfl).symm⟩

/-- Copied values leave the offsets where they are. -/
theorem SoundFrom.copySpns {next : ℕ} {spns : List SPN} (h : SoundFrom next spns)
    (sameSpec : SPN → SPN → Bool) (others : List SPN) :
    (ExactFrom next (J1939.copySpns sameSpec spns others) ↔ CopyKeeps sameSpec spns others) ∧
      (ExactFrom next (J1939.copySpns sameSpec spns others) →
        SoundFrom next (J1939.copySpns sameSpec spns others)) := by
  induction spns generalizing next others with
  | nil =>
    have hnil : J1939.copySpns sameSpec [] others = [] := copySpns_eq_nil_iff.mpr rfl
    rw [hnil]
    refine ⟨iff_of_true trivial ?_, fun _ => ⟨trivial, trivial⟩⟩
    cases others <;> trivial
  | cons spn spns ih =>
    obtain ⟨s, rfl⟩ := exists_string_of_settledFrom h.settled spn (List.mem_cons_self ..)
    obtain _ | ⟨other, others⟩ := others
    · exact ⟨iff_of_true h.exact trivial, fun _ => h⟩
    rw [J1939.copySpns, CopyKeeps]
    by_cases hsame : sameSpec (.string s) other = true
    · rw [if_pos hsame, imp_iff_right hsame]
      obtain ⟨hoffset, hrest⟩ := h.tail
      obtain ⟨s', hcopy, hkept, hlength⟩ := SPN.copy_string s other
      rw [hcopy]
      change (s'.offset = next ∧
          ExactFrom (next + (s'.value.length + 1)) (J1939.copySpns sameSpec spns others) ↔
        (spns ≠ [] → other.isString = true → other.text.length = s.value.length) ∧
          CopyKeeps sameSpec spns others) ∧ (s'.offset = next ∧ _ → _)
      rw [and_iff_right (hkept.trans hoffset), ← hlength]
      by_cases hsize : s'.value.length = s.value.length
      · obtain ⟨hiff, hsound⟩ := ih hrest others
        rw [hsize, and_iff_right fun _ => rfl]
        refine ⟨hiff, fun ⟨_, hexact⟩ => .cons (hkept.trans hoffset) ?_ ?_⟩
        · rw [hsize]
          rcases h.short.1 with hnil | hshort
          · rw [List.map_eq_nil_iff] at hnil
            exact Or.inl (copySpns_eq_nil_iff.mpr hnil)
          · exact Or.inr hshort
        · have hexact' : ExactFrom (next + (s'.value.length + 1)) _ := hexact
          rw [hsize] at hexact' ⊢
          exact hsound hexact'
      · cases spns with
        | nil =>
          have hnil : J1939.copySpns sameSpec [] others = [] := copySpns_eq_nil_iff.mpr rfl
          rw [hnil]
          refine ⟨iff_of_true trivial ⟨fun hne => absurd rfl hne, ?_⟩, fun _ => ?_⟩
          · cases others <;> trivial
          · exact .cons (hkept.trans hoffset) (Or.inl rfl) ⟨trivial, trivial⟩
        | cons t spns =>
          -- the next string stands where the old value ended
          have ht : t.getOffset = next + (s.value.length + 1) := hrest.exact.1
          have hwrong : ¬ExactFrom (next + (s'.value.length + 1))
              (J1939.copySpns sameSpec (t :: spns) others) := by
            intro hexact
            have hhere := hexact.getOffset_of_copySpns
            omega
          refine ⟨iff_of_false hwrong fun hkeeps => ?_, fun hexact => absurd hexact.2 hwrong⟩
          exact hsize (hkeeps.1 (List.cons_ne_nil _ _))
    · rw [if_neg hsame]
      exact ⟨iff_of_true h.exact fun hyes => absurd hyes hsame, fun _ => h⟩

/-! ### Decoding -/

/-- Decoding the strings from an offset on. A string that others follow must be read with at most
254 characters, or must have been empty if it cannot be read. -/
def DecodeKeeps (mem : Memory) (length : ℕ) : ℕ → List (List UInt8) → Prop
  | _, [] => True
  | offset, old :: vs => offset < length →
    match SPNString.readString (fun i => mem (offset + i)) (length - offset) with
    | none => vs = [] ∨ old = []
    | some v => (vs = [] ∨ v.length < 255) ∧ DecodeKeeps mem length (offset + (v.length + 1)) vs

theorem shortBeforeLast_replace {a b : List (List UInt8)} {v w : List UInt8}
    (h : ShortBeforeLast (a ++ v :: b)) (hlast : b = [] ∨ w.length < 255) :
    ShortBeforeLast (a ++ w :: b) := by
  induction a with
  | nil => exact ⟨hlast, h.2⟩
  | cons x a ih =>
    obtain ⟨hx, hrest⟩ := h
    exact ⟨Or.inr (hx.resolve_left (by simp)), ih hrest⟩

section Decoded

variable {start : ℕ} {done todo : List SPN} {s : SPNString}

/-- What sound strings say about one of them. -/
theorem SoundFrom.parts (h : SoundFrom start (done ++ .string s :: todo)) :
    SettledFrom start (done ++ [.string s]) ∧ (∀ spn ∈ todo, spn.isString = true) ∧
      ShortBeforeLast (done.map SPN.text ++ s.value :: todo.map SPN.text) := by
  have hjoined : SoundFrom start ((done ++ [.string s]) ++ todo) := by
    rw [List.append_assoc, List.singleton_append]
    exact h
  refine ⟨hjoined.append.settled, fun spn hspn => ?_, ?_⟩
  · exact isString_of_settledFrom h.settled spn (by simp [hspn])
  · have htexts := h.short
    rw [List.map_append, List.map_cons] at htexts
    exact htexts

/-- The offsets that have been computed again are sound when the size has not wrapped. -/
theorem SoundFrom.decoded (h : SoundFrom start (done ++ .string s :: todo)) {v : List UInt8}
    (hlast : todo.map SPN.text = [] ∨ v.length < 255) :
    SoundFrom start ((done ++ [.string { s with value := v }]) ++
      recalculateFrom (s.offset + stringSize v) todo) := by
  obtain ⟨hdone, hstring, hshort⟩ := h.parts
  refine ⟨settledFrom_decoded hdone hstring v, ?_⟩
  rw [List.append_assoc, List.singleton_append, List.map_append, List.map_cons,
    (recalculateFrom_settled (s.offset + stringSize v) hstring).2]
  exact shortBeforeLast_replace hshort hlast

/-- A size that has wrapped puts the next string within this one. -/
theorem not_exactFrom_of_wrapped {v : List UInt8} (hlong : ¬v.length < 255) {t : SPN}
    {rest : List SPN} (hoffset : t.getOffset = s.offset + stringSize v) :
    ¬ExactFrom start ((done ++ [.string { s with value := v }]) ++ t :: rest) := by
  intro hexact
  rw [List.append_assoc, List.singleton_append] at hexact
  have hnext : t.getOffset = s.offset + (v.length + 1) := hexact.getOffset_next
  exact hlong ((stringSize_eq_iff v).mp (by omega))

/-- A string that cannot be read is empty, and the next one still stands behind the old value. -/
theorem SoundFrom.cleared (h : SoundFrom start (done ++ .string s :: todo)) :
    (ExactFrom start (done ++ .string { s with value := [] } :: todo) ↔
        todo.map SPN.text = [] ∨ s.value = []) ∧
      (ExactFrom start (done ++ .string { s with value := [] } :: todo) →
        SoundFrom start (done ++ .string { s with value := [] } :: todo)) := by
  by_cases hempty : s.value = []
  · have hsame : ({ s with value := [] } : SPNString) = s := by rw [← hempty]
    rw [hsame]
    exact ⟨iff_of_true h.exact (Or.inr hempty), fun _ => h⟩
  obtain ⟨hdone, -, hshort⟩ := h.parts
  obtain _ | ⟨t, rest⟩ := todo
  · have hsound : SoundFrom start (done ++ [.string { s with value := [] }]) := by
      refine ⟨@settledFrom_concat start done s { s with value := [] } rfl hdone, ?_⟩
      rw [List.map_append]
      exact shortBeforeLast_replace hshort (Or.inl rfl)
    exact ⟨iff_of_true hsound.exact (Or.inl rfl), fun _ => hsound⟩
  · have hwrong : ¬ExactFrom start (done ++ .string { s with value := [] } :: t :: rest) := by
      intro hexact
      have hthere : t.getOffset = s.offset + (s.value.length + 1) := h.exact.getOffset_next
      have hhere : t.getOffset = s.offset + (0 + 1) := hexact.getOffset_next
      exact hempty (List.eq_nil_of_length_eq_zero (by omega))
    refine ⟨iff_of_false hwrong ?_, fun hexact => absurd hexact hwrong⟩
    rintro (hnil | hvalue)
    · cases hnil
    · exact hempty hvalue

end Decoded

/-- The strings that have been decoded keep their places, and so does the next one. -/
theorem snd_run_decodeRest {length start : ℕ} {done todo : List SPN}
    (hsettled : SettledFrom start (done ++ todo.take 1))
    (hstring : ∀ spn ∈ todo, spn.isString = true) (mem : Memory) :
    ∃ todo', ((decodeRest length done todo).run (done ++ todo) mem).2 = done ++ todo' ∧
      todo'.length = todo.length ∧
        todo'.head?.map SPN.getOffset = todo.head?.map SPN.getOffset := by
  induction htodo : todo.length generalizing done todo with
  | zero =>
    obtain rfl := List.length_eq_zero_iff.mp htodo
    exact ⟨[], rfl, rfl, rfl⟩
  | succ n ih =>
    obtain _ | ⟨spn, todo⟩ := todo
    · cases htodo
    have hprefix : SettledFrom start (done ++ [spn]) := hsettled
    obtain ⟨s, rfl⟩ := exists_string_of_settledFrom hprefix spn (by simp)
    rw [List.forall_mem_cons] at hstring
    rcases @run_decodeRest_string length start done s hprefix todo mem with
      ⟨v, -, -, hrun⟩ | ⟨-, hrun⟩ | ⟨-, -, e, hrun, -⟩
    · have hlength := length_recalculateFrom (s.offset + stringSize v) todo
      obtain ⟨hrest, -⟩ := recalculateFrom_settled (s.offset + stringSize v) hstring.2
      have hnext := settledFrom_take (settledFrom_decoded hprefix hstring.2 v) 1
      obtain ⟨todo', hrun', hsame, -⟩ := ih hnext (isString_of_settledFrom hrest)
        (hlength.trans (Nat.succ.inj htodo))
      refine ⟨.string { s with value := v } :: todo', ?_, congrArg (· + 1) hsame, rfl⟩
      rw [hrun, hrun', List.append_assoc, List.singleton_append]
    · exact ⟨.string s :: todo, by rw [hrun], htodo, rfl⟩
    · exact ⟨.string { s with value := [] } :: todo, by rw [hrun], htodo, rfl⟩

/-- What the loop leaves of sound offsets, whether it throws or not. -/
theorem SoundFrom.decodeRest {length : ℕ} {done todo : List SPN} (h : SoundFrom 0 (done ++ todo))
    {offset : ℕ} (hoffset : ∀ spn ∈ todo.head?, spn.getOffset = offset) (mem : Memory) :
    (ExactFrom 0 ((J1939.decodeRest length done todo).run (done ++ todo) mem).2 ↔
        DecodeKeeps mem length offset (todo.map SPN.text)) ∧
      (ExactFrom 0 ((J1939.decodeRest length done todo).run (done ++ todo) mem).2 →
        SoundFrom 0 ((J1939.decodeRest length done todo).run (done ++ todo) mem).2) := by
  induction htodo : todo.length generalizing done todo offset with
  | zero =>
    obtain rfl := List.length_eq_zero_iff.mp htodo
    exact ⟨iff_of_true h.exact trivial, fun _ => h⟩
  | succ n ih =>
    obtain _ | ⟨spn, todo⟩ := todo
    · cases htodo
    obtain ⟨s, rfl⟩ := exists_string_of_settledFrom h.settled spn (by simp)
    obtain ⟨hdone, hstring, -⟩ := h.parts
    obtain rfl : s.offset = offset := hoffset _ rfl
    rw [List.map_cons, DecodeKeeps]
    rcases @run_decodeRest_string length 0 done s hdone todo mem with
      ⟨v, hend, hread, hrun⟩ | ⟨hend, hrun⟩ | ⟨hend, hread, e, hrun, -⟩
    · rw [imp_iff_right (Nat.lt_of_not_ge hend), hread, hrun]
      have hlength := length_recalculateFrom (s.offset + stringSize v) todo
      obtain ⟨hrest, htexts⟩ := recalculateFrom_settled (s.offset + stringSize v) hstring
      by_cases hlast : todo.map SPN.text = [] ∨ v.length < 255
      · have hnext : ∀ x ∈ (recalculateFrom (s.offset + stringSize v) todo).head?,
            x.getOffset = s.offset + (v.length + 1) := by
          intro x hx
          rcases hlast with hnil | hlt
          · rw [List.map_eq_nil_iff] at hnil
            rw [hnil] at hx
            cases hx
          · rw [← (stringSize_eq_iff v).mpr hlt]
            exact getOffset_of_mem_head? hrest x hx
        obtain ⟨hiff, hkept⟩ := ih (h.decoded hlast) hnext (hlength.trans (Nat.succ.inj htodo))
        rw [htexts] at hiff
        exact ⟨hiff.trans (and_iff_right hlast).symm, hkept⟩
      · -- the loop goes on, but the next string stays where it is
        have hsettled := settledFrom_take (settledFrom_decoded hdone hstring v) 1
        obtain ⟨todo', hrun', -, hhead⟩ := @snd_run_decodeRest length 0 _ _ hsettled
          (isString_of_settledFrom hrest) mem
        have hwrong : ¬ExactFrom 0 ((done ++ [.string { s with value := v }]) ++ todo') := by
          rw [not_or] at hlast
          obtain _ | ⟨t, rest⟩ := todo
          · exact absurd rfl hlast.1
          obtain _ | ⟨t', todo'⟩ := todo'
          · cases hhead
          refine not_exactFrom_of_wrapped hlast.2 ?_
          exact (Option.some.inj hhead).trans (getOffset_of_mem_head? hrest _ rfl)
        rw [hrun']
        exact ⟨iff_of_false hwrong fun hkeeps => hlast hkeeps.1, fun hexact => absurd hexact hwrong⟩
    · rw [hrun]
      exact ⟨iff_of_true h.exact fun hlt => absurd hlt (Nat.not_lt.mpr hend), fun _ => h⟩
    · rw [imp_iff_right (Nat.lt_of_not_ge hend), hread, hrun]
      exact h.cleared

/-! ### Runs -/

/-- One call on a frame of strings, with its arguments. -/
inductive StringCall
  | registerSPN (s : SPNString)
  | setValue (number : UInt32) (value : List UInt8)
  | decode (identifier : UInt32) (length : ℕ) (mem : Memory)
  | deleteSPN (number : UInt32)
  | clone
  | copy (sameSpec : SPN → SPN → Bool) (other : Frame)

namespace GenericFrame

/-- The copy constructor. -/
def clone (f : GenericFrame) : GenericFrame :=
  { f with spns := f.spns.entries.foldl (fun spns e => spns.insert e.1 e.2) ∅ }

theorem clone_eq (f : GenericFrame) : f.clone = f := by
  rw [clone, SortedMap.foldl_insert_entries]

/-- The frame after a call, whether it throws or not. -/
def call (f : GenericFrame) : StringCall → GenericFrame
  | .registerSPN s => f.registerSPN (.string s)
  | .setValue number value => f.setStringValue number value
  | .decode identifier length mem => ((J1939.decode identifier length).run f mem).2
  | .deleteSPN number => (f.deleteSPN number).1
  | .clone => f.clone
  | .copy sameSpec other => f.copy sameSpec other

/-- The call leaves all offsets as they must be. -/
def CallKeeps (f : GenericFrame) : StringCall → Prop
  | .registerSPN s => f.RegisterKeeps s
  | .setValue number value => f.SetValueKeeps number value
  | .decode identifier length mem => lookupPgn identifier = getPGN f →
    DecodeKeeps mem length 0 (f.spns.values.map SPN.text)
  | .deleteSPN number => f.DeleteKeeps number
  | .clone => True
  | .copy sameSpec (.generic other) => CopyKeeps sameSpec f.spns.values other.spns.values
  | .copy sameSpec (.dm1 other) => CopyKeeps sameSpec f.spns.values other.spns.values
  | .copy _ _ => True

variable {f : GenericFrame}

/-- What holds of the SPNs of a sound frame after they have been replaced. -/
theorem offsets_setValues {spns : List SPN} {keeps : Prop}
    (hlength : spns.length = f.spns.values.length)
    (h : (ExactFrom 0 spns ↔ keeps) ∧ (ExactFrom 0 spns → SoundFrom 0 spns)) :
    (OffsetsExact { f with spns := f.spns.setValues spns } ↔ keeps) ∧
      (OffsetsExact { f with spns := f.spns.setValues spns } →
        Sound { f with spns := f.spns.setValues spns }) := by
  rw [offsetsExact_iff, Sound]
  simp only [SortedMap.values_setValues hlength]
  exact h

theorem length_copySpns (sameSpec : SPN → SPN → Bool) (spns others : List SPN) :
    (copySpns sameSpec spns others).length = spns.length := by
  induction spns generalizing others with
  | nil => cases others <;> rfl
  | cons spn spns ih =>
    cases others with
    | nil => rfl
    | cons other others =>
      rw [copySpns]
      split_ifs
      · rw [List.length_cons, ih, List.length_cons]
      · rfl

/-- One call on a sound frame. -/
theorem Sound.call (h : f.Sound) (c : StringCall) :
    ((f.call c).OffsetsExact ↔ f.CallKeeps c) ∧ ((f.call c).OffsetsExact → (f.call c).Sound) := by
  cases c with
  | registerSPN s => exact h.registerSPN s
  | setValue number value => exact h.setStringValue number value
  | deleteSPN number => exact h.deleteSPN number
  | clone =>
    rw [GenericFrame.call, clone_eq]
    exact ⟨iff_of_true h.offsetsExact trivial, fun _ => h⟩
  | copy sameSpec other =>
    cases other with
    | generic other =>
      exact offsets_setValues (length_copySpns ..) (SoundFrom.copySpns h sameSpec _)
    | dm1 other => exact offsets_setValues (length_copySpns ..) (SoundFrom.copySpns h sameSpec _)
    | _ => exact ⟨iff_of_true h.offsetsExact trivial, fun _ => h⟩
  | decode identifier length mem =>
    by_cases hmatch : lookupPgn identifier = getPGN f
    · rw [GenericFrame.call, run_decode_of_match hmatch, CallKeeps, imp_iff_right hmatch]
      set g : GenericFrame := withHeader f (receivedHeader (header f) identifier) with hg
      change ((OffsetsExact ((GenericFrame.decodeData length).run g mem).2) ↔ _) ∧
        (OffsetsExact ((GenericFrame.decodeData length).run g mem).2 →
          Sound ((GenericFrame.decodeData length).run g mem).2)
      rw [GenericFrame.decodeData, Method.run_onPart, decodeSpns_eq]
      have hsound : SoundFrom 0 ([] ++ g.spns.values) := h
      have hfirst : SettledFrom 0 ([] ++ g.spns.values.take 1) := settledFrom_take hsound.settled 1
      obtain ⟨todo', hrun, hlength, -⟩ := @snd_run_decodeRest length 0 _ _ hfirst h.isString mem
      refine @offsets_setValues g _ _ ?_
        (@SoundFrom.decodeRest length _ _ hsound 0 (getOffset_of_mem_head? h.settled) mem)
      rw [hrun]
      exact hlength
    · obtain ⟨dst, hsnd⟩ := @snd_run_decode_of_mismatch _ _ f identifier length mem hmatch
      rw [GenericFrame.call, hsnd]
      exact ⟨iff_of_true h.offsetsExact fun hyes => absurd hyes hmatch, fun _ => h⟩

/-- The offsets are exact in every state of a run exactly when every call of the run keeps them. -/
theorem offsetsExact_run_iff (pgn : UInt32) (calls : List StringCall) :
    (∀ f ∈ calls.scanl GenericFrame.call { pgn := pgn }, f.OffsetsExact) ↔
      Runs.AllSteps GenericFrame.call CallKeeps { pgn := pgn } calls :=
  @Runs.forall_scanl_iff _ _ GenericFrame.call CallKeeps Sound OffsetsExact
    (fun _ h => h.offsetsExact) (fun _ c h => h.call c) { pgn := pgn } ⟨trivial, trivial⟩ calls

end GenericFrame

/-- The number of a vehicle, empty. -/
def vehicleNumberSpn : SPNString := { spec := vehicleNumber }

/-- The number of a vehicle and another string behind it, and then the first one is deleted. -/
def staleCalls : List StringCall :=
  [.registerSPN vehicleNumberSpn, .registerSPN ⟨⟨587, "Model", 0, by decide⟩, 0, []⟩,
    .deleteSPN 237]

/-- The other string still stands behind the deleted one. -/
theorem staleCalls_not_exact :
    ¬∀ (pgn : UInt32) (calls : List StringCall),
      ∀ f ∈ calls.scanl GenericFrame.call { pgn := pgn }, f.OffsetsExact := by
  intro h
  have hlast : (staleCalls.foldl GenericFrame.call { pgn := 0xFEEC }).OffsetsExact :=
    h 0xFEEC staleCalls _ (by simp [staleCalls])
  rw [GenericFrame.offsetsExact_iff] at hlast
  have hzero : ∀ f : GenericFrame, ExactFrom 0 f.spns.values →
      ∀ spn ∈ f.spns.values.head?, spn.getOffset = 0 := by
    intro f hexact spn hspn
    cases hvalues : f.spns.values with
    | nil =>
      rw [hvalues] at hspn
      cases hspn
    | cons x spns =>
      rw [hvalues] at hspn hexact
      cases hspn
      exact hexact.1
  exact absurd (hzero _ hlast) (by decide)

end J1939
