import J1939.PayloadLength
import J1939.Payloads
import J1939.StringOffsets
import J1939.Lib.Tiling

/-!
# Copying frames

`copy` walks through the SPNs of two frames and copies the values as long as the specifications are
the same. The offsets of strings are not recomputed, and what has been copied before a mismatch
stays.
-/

namespace J1939

/-! ### Frames cloned from one frame -/

namespace GenericFrame

/-- The clones of a frame whose SPNs have been set or decoded, whether the decoding throws or
not. -/
inductive ClonedFrom (origin : GenericFrame) : GenericFrame → Prop
  | clone : ClonedFrom origin origin.clone
  | setNumericValue {f : GenericFrame} (h : ClonedFrom origin f) (number value : UInt32) :
    ClonedFrom origin (f.setNumericValue number value)
  | setStatusValue {f : GenericFrame} (h : ClonedFrom origin f) (number : UInt32)
    (value : UInt8) : ClonedFrom origin (f.setStatusValue number value)
  | setStringValue {f : GenericFrame} (h : ClonedFrom origin f) (number : UInt32)
    (value : List UInt8) : ClonedFrom origin (f.setStringValue number value)
  | decode {f : GenericFrame} (h : ClonedFrom origin f) (identifier : UInt32) (length : ℕ)
    (mem : Memory) : ClonedFrom origin ((J1939.decode identifier length).run f mem).2

end GenericFrame

/-- SPNs of given types with accepted values. Strings stand in the order of their numbers. -/
structure SpnsOf (types spns : List SPN) : Prop where
  types : spns.map SPN.typeOf = types
  accepted : ∀ spn ∈ spns, spn.ValueAccepted
  ordered : (∀ spn ∈ spns, spn.isString = true) →
    spns.Pairwise fun a b => a.getOffset ≤ b.getOffset

theorem SPN.typeOf_setOffset (offset : ℕ) (spn : SPN) :
    (spn.setOffset offset).typeOf = spn.typeOf := by
  cases spn <;> rfl

theorem map_typeOf_recalculated (spns : List SPN) :
    (recalculateStringOffsets spns).map SPN.typeOf = spns.map SPN.typeOf := by
  have hfrom : ∀ (next : ℕ) (spns : List SPN),
      (recalculateFrom next spns).map SPN.typeOf = spns.map SPN.typeOf := by
    intro next spns
    induction spns generalizing next with
    | nil => rfl
    | cons spn spns ih =>
      rw [recalculateFrom, List.map_cons, ih, SPN.typeOf_setOffset, List.map_cons]
  cases spns with
  | nil => rfl
  | cons spn spns => rw [recalculateStringOffsets, List.map_cons, hfrom, List.map_cons]

theorem SettledFrom.le_getOffset {next : ℕ} {spns : List SPN} (h : SettledFrom next spns) :
    ∀ spn ∈ spns, next ≤ spn.getOffset := by
  induction spns generalizing next with
  | nil => simp
  | cons spn spns ih =>
    obtain ⟨⟨s, rfl, rfl⟩, hrest⟩ := h
    rw [List.forall_mem_cons]
    exact ⟨le_rfl, fun x hx => (Nat.le_add_right _ _).trans (ih hrest x hx)⟩

theorem SettledFrom.ordered {next : ℕ} {spns : List SPN} (h : SettledFrom next spns) :
    spns.Pairwise fun a b => a.getOffset ≤ b.getOffset := by
  induction spns generalizing next with
  | nil => exact List.Pairwise.nil
  | cons spn spns ih =>
    obtain ⟨⟨s, rfl, rfl⟩, hrest⟩ := h
    exact List.pairwise_cons.mpr
      ⟨fun x hx => (Nat.le_add_right _ _).trans (hrest.le_getOffset x hx), ih hrest⟩

namespace SpnsOf

variable {types spns : List SPN}

theorem isString_iff (h : SpnsOf types spns) :
    (∀ spn ∈ spns, spn.isString = true) ↔ ∀ spn ∈ types, spn.isString = true := by
  rw [← h.types, List.forall_mem_map]
  simp only [SPN.isString_typeOf]

/-- Computing the offsets again puts strings into order. -/
theorem recalculated (htypes : spns.map SPN.typeOf = types)
    (haccepted : ∀ spn ∈ spns, spn.ValueAccepted) :
    SpnsOf types (recalculateStringOffsets spns) := by
  refine ⟨(map_typeOf_recalculated spns).trans htypes, valueAccepted_recalculated haccepted,
    fun hstring => ?_⟩
  have hstring' : ∀ spn ∈ spns, spn.isString = true := by
    have hmap : ∀ spn ∈ (recalculateStringOffsets spns).map SPN.typeOf, spn.isString = true := by
      rw [List.forall_mem_map]
      intro spn hspn
      rw [SPN.isString_typeOf, hstring spn hspn]
    rw [map_typeOf_recalculated, List.forall_mem_map] at hmap
    intro spn hspn
    rw [← SPN.isString_typeOf, hmap spn hspn]
  exact (recalculateStringOffsets_settled hstring').1.ordered

/-- An SPN may be replaced by one of the same type at the same offset. -/
theorem replace {done todo : List SPN} {spn spn' : SPN}
    (h : SpnsOf types (done ++ spn :: todo)) (htype : spn'.typeOf = spn.typeOf)
    (hoffset : spn'.getOffset = spn.getOffset) (haccepted : spn'.ValueAccepted) :
    SpnsOf types (done ++ spn' :: todo) := by
  obtain ⟨htypes, hall, hordered⟩ := h
  have hkind : spn'.isString = spn.isString := by
    rw [← SPN.isString_typeOf, htype, SPN.isString_typeOf]
  refine ⟨?_, fun x hx => ?_, fun hstring => ?_⟩
  · rw [← htypes, List.map_append, List.map_append, List.map_cons, List.map_cons, htype]
  · rcases List.mem_append.mp hx with hx | hx
    · exact hall x (List.mem_append_left _ hx)
    · rcases List.mem_cons.mp hx with rfl | hx
      · exact haccepted
      · exact hall x (List.mem_append_right _ (List.mem_cons_of_mem _ hx))
  · have hold : ∀ x ∈ done ++ spn :: todo, x.isString = true := by
      intro x hx
      rcases List.mem_append.mp hx with hx | hx
      · exact hstring x (List.mem_append_left _ hx)
      · rcases List.mem_cons.mp hx with rfl | hx
        · rw [← hkind]
          exact hstring spn' (by simp)
        · exact hstring x (List.mem_append_right _ (List.mem_cons_of_mem _ hx))
    have horder := hordered hold
    rw [List.pairwise_append, List.pairwise_cons] at horder ⊢
    simp only [List.forall_mem_cons, hoffset] at horder ⊢
    exact horder

end SpnsOf

/-- Decoding an SPN changes its value only, to one that its setter accepts. -/
theorem SPN.decode_facts {spn : SPN} (haccepted : spn.ValueAccepted) (length : ℕ) (mem : Memory) :
    ((SPN.decode length).run spn mem).2.typeOf = spn.typeOf ∧
      ((SPN.decode length).run spn mem).2.getOffset = spn.getOffset ∧
        ((SPN.decode length).run spn mem).2.ValueAccepted := by
  cases spn with
  | numeric n =>
    rw [SPN.run_decode_numeric, SPNNumeric.run_decode]
    split_ifs <;> exact ⟨rfl, rfl, trivial⟩
  | status s =>
    rw [SPN.run_decode_status, SPNStatus.run_decode]
    refine ⟨rfl, rfl, ?_⟩
    have hfits := @valueFits_decoded (.status s) rfl fun i => mem (i - s.spec.offset)
    change ((mem (s.spec.offset - s.spec.offset) >>> _) &&& _).toNat < _ at hfits
    rw [Nat.sub_self] at hfits
    exact hfits
  | string s =>
    rw [SPN.run_decode_string]
    rcases SPNString.run_decode length s mem with ⟨v, hread, hrun⟩ | ⟨-, e, hrun, -⟩
    · rw [hrun]
      exact ⟨rfl, rfl, (readString_eq_some.mp hread).2.2.2.2⟩
    · rw [hrun]
      exact ⟨rfl, rfl, rfl⟩

/-- One iteration of the loop, whether it throws or not. -/
theorem SpnsOf.decodeAt {types spns : List SPN} (h : SpnsOf types spns) (length i : ℕ)
    (mem : Memory) : SpnsOf types ((J1939.decodeAt length i).run spns mem).2 := by
  by_cases hi : i < spns.length
  · obtain ⟨done, spn, todo, hsplit, rfl⟩ : ∃ done spn todo, spns = done ++ spn :: todo ∧
        done.length = i := by
      refine ⟨spns.take i, spns[i], spns.drop (i + 1), ?_, List.length_take_of_le hi.le⟩
      rw [List.getElem_cons_drop, List.take_append_drop]
    subst hsplit
    have haccepted : spn.ValueAccepted := h.accepted spn (by simp)
    obtain ⟨htype, hoffset, haccepted'⟩ := SPN.decode_facts haccepted (length - spn.getOffset)
      fun i => mem (spn.getOffset + i)
    rw [run_decodeAt]
    by_cases hend : spn.getOffset ≥ length
    · rw [if_pos hend]
      exact h
    rw [if_neg hend]
    rcases hrun : (SPN.decode (length - spn.getOffset)).run spn fun i => mem (spn.getOffset + i)
      with ⟨_ | _, spn'⟩
    · rw [hrun] at htype hoffset haccepted'
      exact h.replace htype hoffset haccepted'
    · rw [hrun] at htype hoffset haccepted'
      have hreplaced : SpnsOf types (done ++ spn' :: todo) := h.replace htype hoffset haccepted'
      simp only
      split_ifs
      · exact .recalculated hreplaced.types hreplaced.accepted
      · exact hreplaced
  · have hnone : spns[i]? = none := List.getElem?_eq_none (Nat.le_of_not_lt hi)
    have hrun : (J1939.decodeAt length i).run spns mem = (.ok (), spns) := by
      rw [J1939.decodeAt, Method.run_get_bind, hnone]
      rfl
    rw [hrun]
    exact h

theorem SpnsOf.decodeSpns {types spns : List SPN} (h : SpnsOf types spns) (length : ℕ)
    (mem : Memory) : SpnsOf types ((J1939.decodeSpns length).run spns mem).2 := by
  rw [J1939.decodeSpns, Method.run_get_bind]
  exact Method.snd_run_forEach (fun i s hs => hs.decodeAt length i mem) h

/-- What the clones of a frame have in common. -/
structure SharesLayout (origin f : GenericFrame) : Prop where
  keys : f.spns.entries.map Prod.fst = origin.spns.entries.map Prod.fst
  spnsOf : SpnsOf (origin.spns.values.map SPN.typeOf) f.spns.values
  length : f.length = origin.length
  priority : getPriority f ≤ 7

namespace SharesLayout

variable {origin f : GenericFrame}

theorem setValues (h : SharesLayout origin f) {spns : List SPN}
    (hspns : SpnsOf (origin.spns.values.map SPN.typeOf) spns) :
    SharesLayout origin { f with spns := f.spns.setValues spns } := by
  have hlength : spns.length = f.spns.values.length := by
    have hnew := congrArg List.length hspns.types
    have hold := congrArg List.length h.spnsOf.types
    rw [List.length_map] at hnew hold
    exact hnew.trans hold.symm
  refine ⟨(SortedMap.map_fst_setValuesIn _ _).trans h.keys, ?_, h.length, h.priority⟩
  rw [SortedMap.values_setValues hlength]
  exact hspns

/-- Assigning an SPN of the same type at the same offset to its number. -/
theorem insert (h : SharesLayout origin f) {number : UInt32} {old spn : SPN}
    (hfind : f.spns.find? number = some old) (htype : spn.typeOf = old.typeOf)
    (hoffset : spn.getOffset = old.getOffset) (haccepted : spn.ValueAccepted) :
    SharesLayout origin { f with spns := f.spns.insert number spn } := by
  obtain ⟨before, after, hsplit, -, -, -, hinsert⟩ := SortedMap.exists_split hfind
  refine ⟨?_, ?_, h.length, h.priority⟩
  · rw [← h.keys, hinsert, hsplit, List.map_append, List.map_append]
    rfl
  · have hold : f.spns.values = before.map Prod.snd ++ old :: after.map Prod.snd := by
      rw [SortedMap.values, hsplit, List.map_append, List.map_cons]
    have hnew : (f.spns.insert number spn).values =
        before.map Prod.snd ++ spn :: after.map Prod.snd := by
      rw [SortedMap.values, hinsert, List.map_append, List.map_cons]
    have hspns := h.spnsOf
    rw [hold] at hspns
    change SpnsOf _ (f.spns.insert number spn).values
    rw [hnew]
    exact hspns.replace htype hoffset haccepted

theorem withHeader (h : SharesLayout origin f) {header : Header} (hprio : header.priority ≤ 7) :
    SharesLayout origin (J1939.withHeader f header) := ⟨h.keys, h.spnsOf, h.length, hprio⟩

theorem setNumericValue (h : SharesLayout origin f) (number value : UInt32) :
    SharesLayout origin (f.setNumericValue number value) := by
  rw [GenericFrame.setNumericValue]
  split
  · next n hfind => exact h.insert hfind rfl rfl trivial
  · exact h

theorem setStatusValue (h : SharesLayout origin f) (number : UInt32) (value : UInt8) :
    SharesLayout origin (f.setStatusValue number value) := by
  rw [GenericFrame.setStatusValue]
  split
  · next s hfind =>
    have hs : (SPN.status s).ValueFits :=
      h.spnsOf.accepted _ (List.mem_map_of_mem (SortedMap.mem_entries_iff.mpr hfind))
    refine h.insert hfind ?_ ?_ (s.valueFits_setValue hs value)
    · rw [SPNStatus.setValue]
      split_ifs <;> rfl
    · rw [SPNStatus.setValue]
      split_ifs <;> rfl
  · exact h

theorem setStringValue (h : SharesLayout origin f) (number : UInt32) (value : List UInt8) :
    SharesLayout origin (f.setStringValue number value) := by
  rcases f.setStringValue_cases number value with hsame | ⟨s, spns, hfind, hascii, rfl, hset⟩
  · rw [hsame]
    exact h
  · rw [hset]
    have hassigned : SharesLayout origin
        { f with spns := f.spns.insert number (.string { s with value := value }) } :=
      h.insert hfind rfl rfl hascii
    exact hassigned.setValues (.recalculated hassigned.spnsOf.types hassigned.spnsOf.accepted)

theorem decode (h : SharesLayout origin f) (identifier : UInt32) (length : ℕ) (mem : Memory) :
    SharesLayout origin ((J1939.decode identifier length).run f mem).2 := by
  by_cases hmatch : lookupPgn identifier = getPGN f
  · rw [run_decode_of_match hmatch]
    have hheader := h.withHeader (priority_receivedHeader (header f) identifier)
    change SharesLayout origin ((GenericFrame.decodeData length).run _ mem).2
    rw [GenericFrame.decodeData, Method.run_onPart]
    exact hheader.setValues (hheader.spnsOf.decodeSpns length mem)
  · obtain ⟨dst, hsnd⟩ := @snd_run_decode_of_mismatch _ _ f identifier length mem hmatch
    rw [hsnd]
    exact h.withHeader h.priority

end SharesLayout

/-- A frame shares its layout with itself when its strings are in order. -/
theorem SharesLayout.self {f : GenericFrame} (hencodable : f.Encodable)
    (hordered : (∀ spn ∈ f.spns.values, spn.isString = true) →
      f.spns.values.Pairwise fun a b => a.getOffset ≤ b.getOffset) : SharesLayout f f :=
  ⟨rfl, ⟨rfl, hencodable.accepted, hordered⟩, rfl, hencodable.priority⟩

theorem SharesLayout.uniform {origin f : GenericFrame} (h : SharesLayout origin f)
    (huniform : origin.Uniform) : f.Uniform := by
  have hkinds : f.spns.values.map SPN.isString = origin.spns.values.map SPN.isString := by
    have hmap := congrArg (List.map SPN.isString) h.spnsOf.types
    simp only [List.map_map, Function.comp_def, SPN.isString_typeOf] at hmap
    exact hmap
  have hall : ∀ (g : GenericFrame) (b : Bool), (∀ spn ∈ g.spns.values, spn.isString = b) ↔
      ∀ k ∈ g.spns.values.map SPN.isString, k = b := by
    intro g b
    rw [List.forall_mem_map]
  rw [GenericFrame.Uniform, hall, hall, hkinds, ← hall, ← hall]
  exact huniform

/-- There are no SPNs that are strings and are not. -/
theorem pairwise_of_fixed {spns : List SPN} {R : SPN → SPN → Prop}
    (hfixed : ∀ spn ∈ spns, spn.isString = false) (hstring : ∀ spn ∈ spns, spn.isString = true) :
    spns.Pairwise R := by
  cases spns with
  | nil => exact .nil
  | cons spn spns =>
    have hspn : spn ∈ spn :: spns := List.mem_cons_self ..
    exact absurd ((hfixed spn hspn).symm.trans (hstring spn hspn)) (by decide)

/-- The strings of a frame that has been built are in the order of their numbers. -/
theorem GenericFrame.Reachable.sharesLayout {f : GenericFrame} (h : f.Reachable) :
    f.Uniform ∧ SharesLayout f f := by
  have hencodable := h.encodable
  induction h with
  | new pgn => exact ⟨Or.inl (by simp [SortedMap.values]), .self hencodable fun _ => .nil⟩
  | @registerSPN f h spn hassert haccepted ih =>
    obtain ⟨huniform, hlayout⟩ := ih h.encodable
    refine ⟨huniform.registerSPN hassert, .self hencodable fun hstring => ?_⟩
    have hkinds := isString_registeredSpns huniform hassert
    have hregistered := h.encodable.registeredSpns haccepted
    rw [registerSPN_eq_ite] at hstring ⊢
    split_ifs at hstring ⊢ with hkind
    · have hspns := SpnsOf.recalculated rfl hregistered
      rw [SortedMap.values_setValues (length_recalculateStringOffsets _)] at hstring ⊢
      exact hspns.ordered hstring
    · refine pairwise_of_fixed (fun x hx => ?_) hstring
      rw [hkinds x hx]
      exact eq_false_of_ne_true hkind
  | @deleteSPN f h number ih =>
    obtain ⟨huniform, hlayout⟩ := ih h.encodable
    cases hfind : f.spns.find? number with
    | none =>
      have hsame : (f.deleteSPN number).1 = f := by rw [GenericFrame.deleteSPN, hfind]
      rw [hsame]
      exact ⟨huniform, hlayout⟩
    | some old =>
      have herased : (f.deleteSPN number).1 = { f with spns := f.spns.erase number } := by
        rw [GenericFrame.deleteSPN, hfind]
      rw [herased] at hencodable ⊢
      have hsublist : (f.spns.erase number).values.Sublist f.spns.values :=
        List.filter_sublist.map Prod.snd
      rcases huniform with hall | hnone
      · refine ⟨Or.inl fun x hx => hall x (hsublist.subset hx), .self hencodable fun _ => ?_⟩
        exact (hlayout.spnsOf.ordered hall).sublist hsublist
      · have hnone' : ∀ x ∈ (f.spns.erase number).values, x.isString = false :=
          fun x hx => hnone x (hsublist.subset hx)
        exact ⟨Or.inr hnone', .self hencodable fun hstring => pairwise_of_fixed hnone' hstring⟩
  | @setLength f h length ih =>
    obtain ⟨huniform, hlayout⟩ := ih h.encodable
    exact ⟨huniform, .self hencodable hlayout.spnsOf.ordered⟩
  | @setNumericValue f h number value ih =>
    obtain ⟨huniform, hlayout⟩ := ih h.encodable
    have hset := hlayout.setNumericValue number value
    exact ⟨hset.uniform huniform, .self hencodable hset.spnsOf.ordered⟩
  | @setStatusValue f h number value ih =>
    obtain ⟨huniform, hlayout⟩ := ih h.encodable
    have hset := hlayout.setStatusValue number value
    exact ⟨hset.uniform huniform, .self hencodable hset.spnsOf.ordered⟩
  | @setStringValue f h number value ih =>
    obtain ⟨huniform, hlayout⟩ := ih h.encodable
    have hset := hlayout.setStringValue number value
    exact ⟨hset.uniform huniform, .self hencodable hset.spnsOf.ordered⟩

theorem GenericFrame.ClonedFrom.sharesLayout {origin f : GenericFrame} (horigin : origin.Reachable)
    (h : origin.ClonedFrom f) : SharesLayout origin f := by
  induction h with
  | clone =>
    rw [GenericFrame.clone_eq]
    exact horigin.sharesLayout.2
  | setNumericValue h number value ih => exact ih.setNumericValue number value
  | setStatusValue h number value ih => exact ih.setStatusValue number value
  | setStringValue h number value ih => exact ih.setStringValue number value
  | decode h identifier length mem ih => exact ih.decode identifier length mem

/-! ### What is copied -/

namespace SPN

/-- Two SPNs of one class have the same value. -/
def SameValue : SPN → SPN → Prop
  | numeric n, numeric other => n.value = other.value
  | status s, status other => s.value = other.value
  | string s, string other => s.value = other.value
  | _, _ => True

/-- A string stands at the same offset as the other SPN. -/
def StandsLike (spn other : SPN) : Prop :=
  spn.isString = true → spn.getOffset = other.getOffset

instance (spn other : SPN) : Decidable (spn.StandsLike other) :=
  inferInstanceAs (Decidable (_ → _))

theorem copy_eq_self_iff (spn other : SPN) : spn.copy other = spn ↔ spn.SameValue other := by
  cases spn with
  | numeric n =>
    obtain ⟨spec, numSpec, value⟩ := n
    cases other <;> simp [copy, SameValue, eq_comm]
  | status s =>
    obtain ⟨spec, statSpec, value⟩ := s
    cases other <;> simp [copy, SameValue, eq_comm]
  | string s =>
    obtain ⟨spec, offset, value⟩ := s
    cases other <;> simp [copy, SameValue, eq_comm]

/-- What a copy has of its own is the offset of a string. -/
theorem copy_eq_other {spn other : SPN} (htype : spn.typeOf = other.typeOf)
    (hoffset : spn.StandsLike other) : spn.copy other = other := by
  cases spn with
  | numeric n =>
    cases other with
    | numeric m =>
      obtain ⟨spec, numSpec, value⟩ := n
      obtain ⟨spec', numSpec', value'⟩ := m
      cases htype
      rfl
    | status t => cases htype
    | string t => cases htype
  | status s =>
    cases other with
    | numeric m => cases htype
    | status t =>
      obtain ⟨spec, statSpec, value⟩ := s
      obtain ⟨spec', statSpec', value'⟩ := t
      cases htype
      rfl
    | string t => cases htype
  | string s =>
    cases other with
    | numeric m => cases htype
    | status t => cases htype
    | string t =>
      obtain ⟨spec, offset, value⟩ := s
      obtain ⟨spec', offset', value'⟩ := t
      cases htype
      cases (hoffset rfl : offset = offset')
      rfl

end SPN

/-- The values of the other frame are the same up to the first mismatch. -/
def SameBeforeMismatch (sameSpec : SPN → SPN → Bool) : List SPN → List SPN → Prop
  | spn :: spns, other :: others =>
    sameSpec spn other = true → spn.SameValue other ∧ SameBeforeMismatch sameSpec spns others
  | _, _ => True

section Copy

variable {sameSpec : SPN → SPN → Bool} {spns others : List SPN}

/-- The loop changes nothing exactly when it copies the values that are there. -/
theorem copySpns_eq_self_iff :
    copySpns sameSpec spns others = spns ↔ SameBeforeMismatch sameSpec spns others := by
  induction spns generalizing others with
  | nil => exact iff_of_true rfl trivial
  | cons spn spns ih =>
    cases others with
    | nil => exact iff_of_true rfl trivial
    | cons other others =>
      rw [copySpns, SameBeforeMismatch]
      by_cases hsame : sameSpec spn other = true
      · rw [if_pos hsame, List.cons.injEq, SPN.copy_eq_self_iff, ih, imp_iff_right hsame]
      · rw [if_neg hsame]
        exact iff_of_true rfl fun h => absurd h hsame

/-- SPNs that match one to one are all copied. -/
theorem copySpns_of_forall₂ (h : List.Forall₂ (fun spn other => sameSpec spn other = true) spns
    others) : copySpns sameSpec spns others = List.zipWith SPN.copy spns others := by
  induction h with
  | nil => rfl
  | cons hsame _ ih => rw [copySpns, if_pos hsame, ih, List.zipWith_cons_cons]

/-- The copies of strings keep their offsets, and so they may differ from the originals. -/
theorem zipWith_copy_eq (htypes : spns.map SPN.typeOf = others.map SPN.typeOf)
    (hoffsets : List.Forall₂ SPN.StandsLike spns others) :
    List.zipWith SPN.copy spns others = others := by
  induction hoffsets with
  | nil => rfl
  | cons hoffset _ ih =>
    rw [List.map_cons, List.map_cons, List.cons.injEq] at htypes
    rw [List.zipWith_cons_cons, SPN.copy_eq_other htypes.1 hoffset, ih htypes.2]

/-- What a copy takes from either frame. -/
theorem map_zipWith_copy (htypes : spns.map SPN.typeOf = others.map SPN.typeOf) :
    (List.zipWith SPN.copy spns others).map SPN.getOffset = spns.map SPN.getOffset ∧
      (List.zipWith SPN.copy spns others).map SPN.text = others.map SPN.text ∧
        (List.zipWith SPN.copy spns others).map SPN.isString = others.map SPN.isString := by
  induction spns generalizing others with
  | nil =>
    cases others with
    | nil => exact ⟨rfl, rfl, rfl⟩
    | cons other others => cases htypes
  | cons spn spns ih =>
    cases others with
    | nil => cases htypes
    | cons other others =>
      rw [List.map_cons, List.map_cons, List.cons.injEq] at htypes
      obtain ⟨hoffsets, htexts, hkinds⟩ := ih htypes.2
      have hone : (spn.copy other).getOffset = spn.getOffset ∧
          (spn.copy other).text = other.text ∧ (spn.copy other).isString = other.isString := by
        cases spn <;> cases other <;> first | exact ⟨rfl, rfl, rfl⟩ | cases htypes.1
      simp only [List.zipWith_cons_cons, List.map_cons, hone, hoffsets, htexts, hkinds, and_self]

end Copy

/-! ### The bytes of strings -/

open Tiling

/-- The bytes that a string writes: up to its first NUL, and the terminator. -/
def writtenPiece (spn : SPN) : Piece ℕ where
  offset := spn.getOffset
  cells := insert spn.text.length (Finset.range (nulIndex spn.text + 1))
  zero_mem := Finset.mem_insert_of_mem (Finset.mem_range.mpr (Nat.succ_pos _))
  nonneg _ _ := Nat.zero_le _

theorem mem_writtenPiece {spn : SPN} {k : ℕ} : k ∈ (writtenPiece spn).covered ↔
    k = spn.getOffset + spn.text.length ∨
      spn.getOffset ≤ k ∧ k ≤ spn.getOffset + nulIndex spn.text := by
  simp only [Piece.mem_covered, writtenPiece, Finset.mem_insert, Finset.mem_range]
  constructor
  · rintro ⟨c, rfl | hc, rfl⟩
    · exact Or.inl rfl
    · exact Or.inr ⟨Nat.le_add_right _ _, by omega⟩
  · rintro (rfl | ⟨hle, hlt⟩)
    · exact ⟨_, Or.inl rfl, rfl⟩
    · exact ⟨k - spn.getOffset, Or.inr (by omega), Nat.add_sub_cancel' hle⟩

theorem lt_of_mem_writtenPiece {spn : SPN} {k : ℕ} (h : k ∈ (writtenPiece spn).covered) :
    k < spn.getOffset + (spn.text.length + 1) := by
  have hle := nulIndex_le_length spn.text
  rcases mem_writtenPiece.mp h with rfl | ⟨-, hk⟩ <;> omega

/-- An ASCII character is not the filler of the buffer. -/
theorem SPNString.getD_ne_of_isAscii {v : List UInt8} (hascii : v.all isAscii = true) (i : ℕ) :
    v.getD i 0 ≠ 0xFF := by
  intro heq
  by_cases hi : i < v.length
  · rw [List.getD_eq_getElem _ _ hi] at heq
    have hchar := List.all_eq_true.mp hascii _ (List.getElem_mem hi)
    rw [heq] at hchar
    exact absurd hchar (by decide)
  · rw [List.getD_eq_default _ _ (Nat.le_of_not_lt hi)] at heq
    exact absurd heq (by decide)

/-- The strings write over the filler where they lie, and nowhere else. -/
theorem getD_encodeSpns_ne_iff {length : ℕ} {buffer out : List UInt8} {spns : List SPN}
    (hstring : ∀ spn ∈ spns, spn.isString = true) (haccepted : ∀ spn ∈ spns, spn.ValueAccepted)
    (hbuffer : buffer.length = length) (h : encodeSpns length buffer spns = .ok out) (k : ℕ) :
    out.getD k 0 ≠ 0xFF ↔ k ∈ covered (spns.map writtenPiece) ∨ buffer.getD k 0 ≠ 0xFF := by
  induction spns generalizing buffer with
  | nil =>
    cases h
    simp [covered]
  | cons spn spns ih =>
    rw [List.forall_mem_cons] at hstring haccepted
    obtain ⟨s, rfl⟩ := SPN.exists_string hstring.1
    have hascii : s.value.all SPNString.isAscii = true := haccepted.1
    by_cases hfit : s.offset + s.value.length < length
    · rw [encodeSpns, encodeSpn_string_of_fits buffer hfit] at h
      have hwritten : (writeString buffer s.offset s.value).getD k 0 ≠ 0xFF ↔
          k ∈ (writtenPiece (.string s)).covered ∨ buffer.getD k 0 ≠ 0xFF := by
        rw [mem_writtenPiece, getD_writeString (by rw [hbuffer]; exact hfit)]
        change _ ↔ (k = s.offset + s.value.length ∨
          s.offset ≤ k ∧ k ≤ s.offset + nulIndex s.value) ∨ _
        split_ifs with hend hin
        · exact iff_of_true (by decide) (Or.inl (Or.inl hend))
        · exact iff_of_true (SPNString.getD_ne_of_isAscii hascii _) (Or.inl (Or.inr hin))
        · simp only [hend, hin, or_self, false_or]
      rw [ih hstring.2 haccepted.2 (by rw [length_writeString, hbuffer]) h, hwritten,
        List.map_cons, covered, Finset.mem_union, or_left_comm, or_assoc]
    · obtain ⟨e, herror⟩ := encodeSpn_string_of_not_fits buffer hfit
      rw [encodeSpns, herror] at h
      cases h

/-- The strings of an encoded frame lie where the buffer is not filled. -/
theorem covered_of_encodeSpns {length : ℕ} {out : List UInt8} {spns : List SPN}
    (hstring : ∀ spn ∈ spns, spn.isString = true) (haccepted : ∀ spn ∈ spns, spn.ValueAccepted)
    (h : encodeSpns length (List.replicate length 0xFF) spns = .ok out) :
    covered (spns.map writtenPiece) = (Finset.range out.length).filter (out.getD · 0 ≠ 0xFF) := by
  have hlength : out.length = length := by
    rw [GenericFrame.encodeSpns_length h, List.length_replicate]
  have hends : ∀ spn ∈ spns, spn.getOffset + spn.size ≤ length := by
    rcases encodeSpns_length_iff haccepted length (List.replicate length 0xFF) with
      ⟨hends, -⟩ | ⟨-, e, herror, -⟩
    · exact hends
    · rw [herror] at h
      cases h
  ext k
  rw [Finset.mem_filter, Finset.mem_range, hlength,
    getD_encodeSpns_ne_iff hstring haccepted List.length_replicate h]
  constructor
  · intro hk
    refine ⟨?_, Or.inl hk⟩
    obtain ⟨p, hp, hkp⟩ := mem_covered.mp hk
    obtain ⟨spn, hspn, rfl⟩ := List.mem_map.mp hp
    have hend := hends spn hspn
    have hlt := lt_of_mem_writtenPiece hkp
    obtain ⟨s, rfl⟩ := SPN.exists_string (hstring spn hspn)
    exact hlt.trans_le hend
  · rintro ⟨hk, hwritten | hfresh⟩
    · exact hwritten
    · rw [List.getD_eq_getElem _ _ (by rwa [List.length_replicate]), List.getElem_replicate]
        at hfresh
      exact absurd rfl hfresh

/-! ### Complete copies -/

namespace GenericFrame

variable {f a b : GenericFrame} {sameSpec : SPN → SPN → Bool}

/-- What `encode` leaves in a buffer of the announced length. -/
def payload (f : GenericFrame) : Except J1939Exception (List UInt8) :=
  (encode f (J1939.getDataLength f)).map Encoded.buffer

theorem payload_eq (hprio : getPriority f ≤ 7) : f.payload =
    encodeSpns f.getDataLength (List.replicate f.getDataLength 0xFF) f.spns.values := by
  have hannounced := encodeData_announced f
  cases hdata : encodeSpns f.getDataLength (List.replicate f.getDataLength 0xFF) f.spns.values with
  | ok data =>
    have hok := (@encode_eq_ok_iff _ _ f (J1939.getDataLength f)
      ⟨getIdentifier f, data, J1939.getDataLength f⟩).mpr
        ⟨hprio, le_rfl, hannounced.trans hdata, rfl, rfl⟩
    rw [payload, hok]
    rfl
  | error e =>
    rw [payload, encode_of_error hprio le_rfl (hannounced.trans hdata)]
    rfl

/-- The specifications of two frames match one to one. -/
def Matches (sameSpec : SPN → SPN → Bool) (a b : GenericFrame) : Prop :=
  List.Forall₂ (fun spn other => sameSpec spn other = true) a.spns.values b.spns.values

/-- Every string of a frame stands where it stands in the other one. -/
def SameOffsets (a b : GenericFrame) : Prop :=
  List.Forall₂ SPN.StandsLike a.spns.values b.spns.values

/-- The strings of a frame do not overlap. -/
def StringsApart (f : GenericFrame) : Prop :=
  f.spns.values.Pairwise fun spn next => spn.getOffset + (spn.text.length + 1) ≤ next.getOffset

/-- When all is copied and all strings stand alike, nothing is different. -/
theorem spns_copy (hkeys : a.spns.entries.map Prod.fst = b.spns.entries.map Prod.fst)
    (htypes : a.spns.values.map SPN.typeOf = b.spns.values.map SPN.typeOf)
    (hmatches : Matches sameSpec a b) (hoffsets : SameOffsets a b) :
    (a.copy sameSpec (.generic b)).spns = b.spns := by
  change a.spns.setValues (copySpns sameSpec a.spns.values b.spns.values) = b.spns
  rw [copySpns_of_forall₂ hmatches, zipWith_copy_eq htypes hoffsets]
  exact SortedMap.setValues_values hkeys

/-- A frame of strings in the order of their numbers. -/
structure StringsInOrder (f : GenericFrame) : Prop where
  encodable : f.Encodable
  isString : ∀ spn ∈ f.spns.values, spn.isString = true
  ordered : f.spns.values.Pairwise fun spn next => spn.getOffset ≤ next.getOffset

/-- Strings that do not overlap stand where the payload shows them. -/
theorem StringsInOrder.offsets_eq (hf : f.StringsInOrder) (hb : b.StringsInOrder)
    (htexts : f.spns.values.map SPN.text = b.spns.values.map SPN.text) (hapart : b.StringsApart)
    {data : List UInt8} (hfdata : f.payload = .ok data) (hbdata : b.payload = .ok data) :
    f.spns.values.map SPN.getOffset = b.spns.values.map SPN.getOffset := by
  rw [payload_eq hf.encodable.priority] at hfdata
  rw [payload_eq hb.encodable.priority] at hbdata
  have hcovered : covered (f.spns.values.map writtenPiece) =
      covered (b.spns.values.map writtenPiece) := by
    rw [covered_of_encodeSpns hf.isString hf.encodable.accepted hfdata,
      covered_of_encodeSpns hb.isString hb.encodable.accepted hbdata]
  have hcells : (f.spns.values.map writtenPiece).map Piece.cells =
      (b.spns.values.map writtenPiece).map Piece.cells := by
    have hmap := congrArg (List.map fun v : List UInt8 =>
      insert v.length (Finset.range (nulIndex v + 1))) htexts
    rw [List.map_map, List.map_map] at hmap
    rw [List.map_map, List.map_map]
    exact hmap
  have hpieces : Apart (b.spns.values.map writtenPiece) := by
    refine List.pairwise_map.mpr (hapart.imp fun {spn next} hle => ?_)
    rw [Finset.disjoint_left]
    intro k hk hnext
    have hlt := lt_of_mem_writtenPiece hk
    have hge : next.getOffset ≤ k := Piece.offset_le hnext
    omega
  have hoffsets := offsets_eq_of_covered (List.pairwise_map.mpr hf.ordered)
    (List.pairwise_map.mpr hb.ordered) hcells hpieces hcovered
  rw [List.map_map, List.map_map] at hoffsets
  exact hoffsets

/-- The strings of a clone are in order. -/
theorem stringsInOrder_of_layout {origin : GenericFrame} (h : SharesLayout origin f)
    (hstring : ∀ spn ∈ f.spns.values, spn.isString = true) : f.StringsInOrder :=
  ⟨⟨h.priority, h.spnsOf.accepted⟩, hstring, h.spnsOf.ordered hstring⟩

/-- A copy of strings has the texts of the one frame at the offsets of the other one. -/
theorem stringsInOrder_copy (htypes : a.spns.values.map SPN.typeOf = b.spns.values.map SPN.typeOf)
    (hmatches : Matches sameSpec a b) (ha : a.StringsInOrder) (hb : b.StringsInOrder) :
    (a.copy sameSpec (.generic b)).StringsInOrder ∧
      (a.copy sameSpec (.generic b)).spns.values.map SPN.getOffset =
        a.spns.values.map SPN.getOffset ∧
      (a.copy sameSpec (.generic b)).spns.values.map SPN.text = b.spns.values.map SPN.text := by
  have hvalues : (a.copy sameSpec (.generic b)).spns.values =
      List.zipWith SPN.copy a.spns.values b.spns.values := by
    change (a.spns.setValues (copySpns sameSpec a.spns.values b.spns.values)).values = _
    rw [SortedMap.values_setValues (length_copySpns _ _ _), copySpns_of_forall₂ hmatches]
  obtain ⟨hoffsets, htexts, hkinds⟩ := map_zipWith_copy htypes
  rw [← hvalues] at hoffsets htexts hkinds
  have hstring : ∀ spn ∈ (a.copy sameSpec (.generic b)).spns.values, spn.isString = true := by
    have hall : ∀ kind ∈ b.spns.values.map SPN.isString, kind = true :=
      List.forall_mem_map.mpr hb.isString
    rw [← hkinds] at hall
    exact List.forall_mem_map.mp hall
  refine ⟨⟨⟨ha.encodable.priority, ?_⟩, hstring, ?_⟩, hoffsets, htexts⟩
  · intro spn hspn
    have htext : spn.text ∈ b.spns.values.map SPN.text := htexts ▸ List.mem_map_of_mem hspn
    obtain ⟨other, hother, heq⟩ := List.mem_map.mp htext
    obtain ⟨s, rfl⟩ := SPN.exists_string (hstring spn hspn)
    obtain ⟨t, rfl⟩ := SPN.exists_string (hb.isString other hother)
    have hvalue : t.value = s.value := heq
    change s.value.all SPNString.isAscii = true
    rw [← hvalue]
    exact hb.encodable.accepted _ hother
  · have hordered := List.pairwise_map (f := SPN.getOffset) (R := (· ≤ ·)).mpr ha.ordered
    rw [← hoffsets] at hordered
    exact List.pairwise_map.mp hordered

theorem sameOffsets_of_map
    (h : a.spns.values.map SPN.getOffset = b.spns.values.map SPN.getOffset) : SameOffsets a b := by
  rw [← List.forall₂_eq_eq_eq, List.forall₂_map_left_iff, List.forall₂_map_right_iff] at h
  have hlike : ∀ spn other : SPN, spn.getOffset = other.getOffset → spn.StandsLike other :=
    fun _ _ heq _ => heq
  exact List.Forall₂.imp hlike h

/-- Without strings there is no offset to keep. -/
theorem sameOffsets_of_fixed (hfixed : ∀ spn ∈ a.spns.values, spn.isString = false)
    (hmatches : Matches sameSpec a b) : SameOffsets a b := by
  have hboth := (List.forall₂_and_left _ _).mpr ⟨hfixed, hmatches⟩
  refine List.Forall₂.imp (fun spn other h hstring => ?_) hboth
  rw [h.1] at hstring
  cases hstring

/-- What a clone makes of the values of another clone. -/
theorem payload_copy_iff {origin : GenericFrame} (huniform : origin.Uniform)
    (ha : SharesLayout origin a) (hb : SharesLayout origin b) (hmatches : Matches sameSpec a b) :
    (SameOffsets a b → (a.copy sameSpec (.generic b)).payload = b.payload) ∧
      (b.StringsApart → (∃ data, b.payload = .ok data) →
        (a.copy sameSpec (.generic b)).payload = b.payload → SameOffsets a b) := by
  have hkeys := ha.keys.trans hb.keys.symm
  have htypes := ha.spnsOf.types.trans hb.spnsOf.types.symm
  have hlength : (a.copy sameSpec (.generic b)).length = b.length := ha.length.trans hb.length.symm
  have hprio : getPriority (a.copy sameSpec (.generic b)) ≤ 7 := ha.priority
  constructor
  · intro hoffsets
    have hspns := spns_copy hkeys htypes hmatches hoffsets
    have hsame : (a.copy sameSpec (.generic b)).getDataLength = b.getDataLength := by
      rw [getDataLength, getDataLength, hspns, hlength]
    rw [payload_eq hprio, payload_eq hb.priority, hsame, hspns]
  · rintro hapart ⟨data, hdata⟩ hpayload
    rcases ha.uniform huniform with hstring | hfixed
    · have ha' := stringsInOrder_of_layout ha hstring
      have hb' := stringsInOrder_of_layout hb
        (hb.spnsOf.isString_iff.mpr (ha.spnsOf.isString_iff.mp hstring))
      obtain ⟨hcopy, hoffsets, htexts⟩ := stringsInOrder_copy htypes hmatches ha' hb'
      refine sameOffsets_of_map (hoffsets.symm.trans ?_)
      exact hcopy.offsets_eq hb' htexts hapart (hpayload.trans hdata) hdata
    · exact sameOffsets_of_fixed hfixed hmatches

/-- A copy between clones is complete when all strings stand alike, and only then if the strings
of the other frame do not overlap. A copy that ends early has no effect exactly when the values
before the mismatch are the same. -/
theorem copy_complete_iff (sameSpec : SPN → SPN → Bool) (a b : GenericFrame) :
    (∀ origin : GenericFrame, origin.Reachable → origin.ClonedFrom a → origin.ClonedFrom b →
      Matches sameSpec a b →
        (SameOffsets a b → (a.copy sameSpec (.generic b)).payload = b.payload) ∧
          (b.StringsApart → (∃ data, b.payload = .ok data) →
            ((a.copy sameSpec (.generic b)).payload = b.payload ↔ SameOffsets a b))) ∧
      (¬Matches sameSpec a b →
        ((a.copy sameSpec (.generic b)).spns = a.spns ↔
          SameBeforeMismatch sameSpec a.spns.values b.spns.values)) := by
  constructor
  · intro origin horigin ha hb hmatches
    obtain ⟨hcomplete, honly⟩ := payload_copy_iff horigin.sharesLayout.1
      (ha.sharesLayout horigin) (hb.sharesLayout horigin) hmatches
    exact ⟨hcomplete, fun hapart hdata => ⟨honly hapart hdata, hcomplete⟩⟩
  · rintro -
    rw [← copySpns_eq_self_iff]
    change a.spns.setValues (copySpns sameSpec a.spns.values b.spns.values) = a.spns ↔ _
    constructor
    · intro h
      rw [← SortedMap.values_setValues (length_copySpns sameSpec a.spns.values b.spns.values), h]
    · intro h
      rw [h]
      exact SortedMap.setValues_values rfl

end GenericFrame

/-- Clones share a specification when it is the same. -/
def sharedSpec (spn other : SPN) : Bool := spn.spec = other.spec

theorem reachable_vehicleStrings (vin engine : List UInt8) :
    (vehicleStrings vin engine).Reachable := by
  refine .setStringValue (.setStringValue ?_ 237 vin) 588 engine
  have hfirst := @GenericFrame.Reachable.registerSPN _ (.new 0xFEEC)
    (.string { spec := ⟨588, "Engine Serial Number", 0, by decide⟩ }) (by decide) rfl
  exact hfirst.registerSPN (by decide) rfl

/-- An engine number is copied to an empty frame, as no string stands behind it. -/
theorem engineNumber_copied :
    ((vehicleStrings [] []).copy sharedSpec
        (.generic ((vehicleStrings [] []).setStringValue 588 [0x49, 0x53, 0x58]))).payload =
      ((vehicleStrings [] []).setStringValue 588 [0x49, 0x53, 0x58]).payload :=
  ((GenericFrame.copy_complete_iff sharedSpec (vehicleStrings [] [])
      ((vehicleStrings [] []).setStringValue 588 [0x49, 0x53, 0x58])).1 (vehicleStrings [] [])
    (reachable_vehicleStrings [] []) (.clone) (.setStringValue .clone 588 [0x49, 0x53, 0x58])
    (.cons (by decide) (.cons (by decide) .nil))).1
      (.cons (by decide) (.cons (by decide) .nil))

/-- Behind a longer vehicle number the next string must move, but a copy leaves it. And what has
been copied stays when the other frame ends early. -/
theorem copies_not_complete :
    (¬∀ (sameSpec : SPN → SPN → Bool) (origin a b : GenericFrame), origin.Reachable →
      origin.ClonedFrom a → origin.ClonedFrom b → GenericFrame.Matches sameSpec a b →
        (a.copy sameSpec (.generic b)).payload = b.payload) ∧
      ¬∀ (sameSpec : SPN → SPN → Bool) (a b : GenericFrame), ¬GenericFrame.Matches sameSpec a b →
        (a.copy sameSpec (.generic b)).spns = a.spns := by
  constructor
  · intro h
    have hwrong := h sharedSpec (vehicleStrings [] []) (vehicleStrings [] [])
      ((vehicleStrings [] []).setStringValue 237 [0x31, 0x43, 0x34])
      (reachable_vehicleStrings [] []) .clone (.setStringValue .clone 237 [0x31, 0x43, 0x34])
      (.cons (by decide) (.cons (by decide) .nil))
    exact absurd hwrong (by decide)
  · intro h
    have hwrong := h sharedSpec (vehicleStrings [] [])
      (((vehicleStrings [] []).setStringValue 237 [0x31, 0x43, 0x34]).deleteSPN 588).1
      fun hmatches => absurd hmatches.length_eq (by decide)
    exact absurd hwrong (by decide)

end J1939
