import J1939.GenericFrame
import J1939.SPNCodec

/-!
# Decoding the SPNs of a frame

The loop of `decodeData` over the SPNs, for the two kinds of frames that
`registerSPN` lets a program build: without string SPNs, or with nothing else.
-/

namespace J1939

/-! ### Accesses -/

theorem within_decodeAt (length i : ℕ) : (decodeAt length i).Within length := by
  refine Method.Within.get_bind fun spns => ?_
  cases spns[i]? with
  | none => exact Method.Within.pure ()
  | some spn =>
    refine Method.Within.throwIf_bind fun hoffset => Method.Within.bind
      (Method.Within.advance fun s mem k hk => ?_) fun _ => ?_
    · rw [Method.accessed_onPart] at hk
      exact spn.within_decode (by omega) mem k hk
    · by_cases hstring : spn.isString = true
      · rw [if_pos hstring]
        exact Method.Within.modify _
      · rw [if_neg hstring]
        exact Method.Within.pure ()

/-- Decoding a generic frame stays within the length it is given, however its SPNs
are laid out. -/
theorem GenericFrame.within_decodeData (length : ℕ) : (decodeData length).Within length :=
  Method.Within.onPart (Method.Within.get_bind fun _ =>
    Method.Within.forEach fun i _ => within_decodeAt length i)

/-! ### One iteration of the loop -/

/-- The SPN in turn is the one behind those that have been decoded. -/
theorem run_decodeAt (length : ℕ) (done : List SPN) (spn : SPN) (todo : List SPN)
    (mem : Memory) :
    (decodeAt length done.length).run (done ++ spn :: todo) mem =
      if spn.getOffset ≥ length then (.error .spnOffset, done ++ spn :: todo)
      else
        match (SPN.decode (length - spn.getOffset)).run spn fun i => mem (spn.getOffset + i) with
        | (.ok (), spn') =>
          (.ok (), if spn.isString then recalculateStringOffsets (done ++ spn' :: todo)
            else done ++ spn' :: todo)
        | (.error e, spn') => (.error e, done ++ spn' :: todo) := by
  have hget : (done ++ spn :: todo)[done.length]? = some spn := by simp
  have hset : ∀ spn', (done ++ spn :: todo).set done.length spn' = done ++ spn' :: todo := by
    intro spn'
    simp
  rw [decodeAt, Method.run_get_bind, hget]
  simp only [Method.run_throwIf_bind]
  by_cases hoffset : spn.getOffset ≥ length
  · rw [if_pos hoffset, if_pos hoffset]
  rw [if_neg hoffset, if_neg hoffset, Method.run_bind, Method.run_advance, Method.run_onPart]
  rcases (SPN.decode (length - spn.getOffset)).run spn fun i => mem (spn.getOffset + i) with
    ⟨_ | _, spn'⟩
  · simp only [hset]
  · simp only [hset]
    by_cases hstring : spn.isString = true
    · simp only [hstring, if_true, Method.run_modify]
    · simp only [hstring]
      rfl

/-- Run the iterations for the SPNs that are left. -/
def decodeRest (length : ℕ) (done todo : List SPN) : Method (List SPN) J1939Exception Unit :=
  Method.forEach (List.range' done.length todo.length) (decodeAt length)

theorem decodeSpns_eq (length : ℕ) (spns : List SPN) (mem : Memory) :
    (decodeSpns length).run spns mem = (decodeRest length [] spns).run ([] ++ spns) mem := by
  rw [decodeSpns, Method.run_get_bind, decodeRest, List.range_eq_range']
  rfl

theorem decodeRest_cons (length : ℕ) (done : List SPN) (spn spn' : SPN) (todo todo' : List SPN)
    (hlength : todo'.length = todo.length) :
    decodeRest length done (spn :: todo) =
      decodeAt length done.length >>= fun _ => decodeRest length (done ++ [spn']) todo' := by
  rw [decodeRest, List.length_cons, List.range'_succ, Method.forEach, decodeRest,
    List.length_append, List.length_singleton, hlength]

/-! ### Frames without strings -/

/-- The SPN lies within a payload of the given length. -/
def SPN.Fits (length : ℕ) : SPN → Prop
  | .numeric n => n.spec.offset < length ∧ n.getByteSize.toNat ≤ length - n.spec.offset
  | .status s => s.spec.offset < length
  | .string s => s.offset < length

instance (length : ℕ) (spn : SPN) : Decidable (spn.Fits length) := by
  cases spn <;> unfold SPN.Fits <;> infer_instance

/-- What decoding leaves in an SPN of fixed size. -/
def SPN.decoded (mem : Memory) : SPN → SPN
  | .numeric n => .numeric { n with
      value := SPNNumeric.readValue n.getByteSize.toNat fun i => mem (n.spec.offset + i) }
  | .status s => .status { s with value := (mem s.spec.offset >>> s.getBitOffset) &&& s.mask }
  | .string s => .string s

/-- An SPN of fixed size is decoded when it fits; otherwise a decode exception is thrown. -/
theorem run_decodeAt_fixed {length : ℕ} {done : List SPN} {spn : SPN} {todo : List SPN}
    (hfixed : spn.isString = false) (mem : Memory) :
    (spn.Fits length ∧ (decodeAt length done.length).run (done ++ spn :: todo) mem =
        (.ok (), done ++ spn.decoded mem :: todo)) ∨
      (¬spn.Fits length ∧ ∃ e st, (decodeAt length done.length).run (done ++ spn :: todo) mem =
        (.error e, st) ∧ e.isDecode = true) := by
  rw [run_decodeAt]
  by_cases hoffset : spn.getOffset ≥ length
  · rw [if_pos hoffset]
    refine Or.inr ⟨fun hfits => ?_, _, _, rfl, rfl⟩
    cases spn with
    | numeric n => exact absurd hfits.1 (Nat.not_lt.mpr hoffset)
    | status s => exact absurd hfits (Nat.not_lt.mpr hoffset)
    | string s => cases hfixed
  rw [if_neg hoffset]
  cases spn with
  | numeric n =>
    have hrun := SPN.run_decode_numeric (length - n.spec.offset) n
      fun i => mem (n.spec.offset + i)
    rw [SPNNumeric.run_decode] at hrun
    by_cases hsize : n.getByteSize.toNat > length - n.spec.offset
    · rw [if_pos hsize] at hrun
      refine Or.inr ⟨fun hfits => absurd hfits.2 (Nat.not_le.mpr hsize), .numericDecodeLength,
        done ++ .numeric n :: todo, ?_, rfl⟩
      simp only [SPN.getOffset, hrun]
    · rw [if_neg hsize] at hrun
      refine Or.inl ⟨⟨Nat.lt_of_not_ge hoffset, Nat.le_of_not_lt hsize⟩, ?_⟩
      simp only [SPN.getOffset, hrun]
      rfl
  | status s =>
    have hrun := SPN.run_decode_status (length - s.spec.offset) s
      fun i => mem (s.spec.offset + i)
    rw [SPNStatus.run_decode] at hrun
    refine Or.inl ⟨Nat.lt_of_not_ge hoffset, ?_⟩
    simp only [SPN.getOffset, hrun]
    rfl
  | string s => cases hfixed

/-- A frame without strings is decoded when all its SPNs fit; otherwise a decode
exception is thrown. -/
theorem run_decodeRest_fixed {length : ℕ} (done todo : List SPN)
    (hfixed : ∀ spn ∈ todo, spn.isString = false) (mem : Memory) :
    ((∀ spn ∈ todo, spn.Fits length) ∧
        (decodeRest length done todo).run (done ++ todo) mem =
          (.ok (), done ++ todo.map (SPN.decoded mem))) ∨
      ((¬∀ spn ∈ todo, spn.Fits length) ∧ ∃ e st,
        (decodeRest length done todo).run (done ++ todo) mem = (.error e, st) ∧
          e.isDecode = true) := by
  induction todo generalizing done with
  | nil => exact Or.inl ⟨by simp, rfl⟩
  | cons spn todo ih =>
    rw [List.forall_mem_cons] at hfixed
    rw [decodeRest_cons length done spn (spn.decoded mem) todo todo rfl]
    rcases run_decodeAt_fixed hfixed.1 mem with ⟨hfits, hrun⟩ | ⟨hfits, e, st, hrun, hdecode⟩
    · have hsplit : done ++ spn.decoded mem :: todo = (done ++ [spn.decoded mem]) ++ todo := by
        simp
      rw [Method.run_bind_of_ok hrun, hsplit]
      rcases ih (done ++ [spn.decoded mem]) hfixed.2 with
        ⟨hrest, hrun'⟩ | ⟨hrest, e, st, hrun', hdecode⟩
      · refine Or.inl ⟨List.forall_mem_cons.mpr ⟨hfits, hrest⟩, ?_⟩
        rw [hrun', List.append_assoc]
        rfl
      · exact Or.inr ⟨fun h => hrest (List.forall_mem_cons.mp h).2, e, st, hrun', hdecode⟩
    · exact Or.inr ⟨fun h => hfits (List.forall_mem_cons.mp h).1, e, st,
        Method.run_bind_of_error hrun, hdecode⟩

end J1939
