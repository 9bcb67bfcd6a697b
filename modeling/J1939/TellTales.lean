import J1939.Payloads

/-!
# Tell-tales on the wire

Two tell-tales share a byte. The status of the first one is not masked, so a status above 7
reaches into the second one.
-/

namespace J1939

open Buffer

namespace FMS1Frame

/-- `FMS1Frame::getTTS`. -/
def getTTS (f : FMS1Frame) (number : UInt8) : TellTale :=
  (f.ttss.find? number).getD ⟨number, TellTale.notAvailable⟩

/-- `FMS1Frame::setTTS`. A number that does not belong to the frame is not set. -/
def setTTS (f : FMS1Frame) (number status : UInt8) : FMS1Frame × Bool :=
  match f.ttss.find? number with
  | some _ => (f.setEntry number status, true)
  | none => (f, false)

/-- The frames that come from the constructor of one block by `setTTS` and successful decodings. -/
inductive Reachable : FMS1Frame → Prop
  | ofBlockID {blockID : UInt8} (hblock : blockID < numberOfBlocks) :
    Reachable (ofBlockID blockID hblock)
  | setTTS {f : FMS1Frame} (h : Reachable f) (number status : UInt8) :
    Reachable (f.setTTS number status).1
  | decode {f f' : FMS1Frame} (h : Reachable f) {identifier : UInt32} {length : ℕ} {mem : Memory}
    (hrun : (J1939.decode identifier length).run f mem = (.ok (), f')) : Reachable f'

/-! ### The tell-tales of a block -/

/-- The frame has a block, and the fifteen tell-tales of that block. -/
structure HasBlock (f : FMS1Frame) : Prop where
  blockID_lt : f.blockID < numberOfBlocks
  find?_isSome : ∀ number, (f.ttss.find? number).isSome ↔
    ∃ k, 1 ≤ k ∧ k ≤ ttssPerBlock ∧ number = f.ttsNumber k

variable {f : FMS1Frame}

theorem toNat_ttsNumber (hblock : f.blockID < numberOfBlocks) {k : ℕ} (hk : k ≤ ttssPerBlock) :
    (f.ttsNumber k).toNat = ttssPerBlock * f.blockID.toNat + k := by
  have hlt : f.blockID.toNat < 4 := UInt8.lt_iff_toNat_lt.mp hblock
  rw [ttsNumber, UInt8.toNat_ofNat']
  simp only [ttssPerBlock] at hk ⊢
  omega

theorem ttsNumber_inj (hblock : f.blockID < numberOfBlocks) {j k : ℕ} (hj : j ≤ ttssPerBlock)
    (hk : k ≤ ttssPerBlock) : f.ttsNumber j = f.ttsNumber k ↔ j = k := by
  rw [← UInt8.toNat_inj, toNat_ttsNumber hblock hj, toNat_ttsNumber hblock hk]
  omega

/-- The numbers of the tell-tales, in increasing order. -/
theorem HasBlock.keys (h : f.HasBlock) :
    f.ttss.entries.map Prod.fst = (List.range' 1 ttssPerBlock).map f.ttsNumber := by
  refine SortedMap.keys_eq_of_find? (fun number => ?_) ?_
  · rw [h.find?_isSome, List.mem_map]
    refine exists_congr fun k => ?_
    rw [List.mem_range'_1, eq_comm (a := number)]
    constructor
    · rintro ⟨hone, hle, heq⟩
      exact ⟨⟨hone, by omega⟩, heq⟩
    · rintro ⟨⟨hone, hlt⟩, heq⟩
      exact ⟨hone, by omega, heq⟩
  · rw [List.pairwise_map]
    apply List.Pairwise.imp_of_mem _ List.pairwise_lt_range'
    intro j k hj hk hlt
    rw [List.mem_range'_1] at hj hk
    rw [UInt8.lt_iff_toNat_lt, toNat_ttsNumber h.blockID_lt (by omega),
      toNat_ttsNumber h.blockID_lt (by omega)]
    omega

theorem HasBlock.size_eq (h : f.HasBlock) : f.ttss.size = ttssPerBlock := by
  have hlength := congrArg List.length h.keys
  rw [List.length_map, List.length_map, List.length_range'] at hlength
  exact hlength

/-- The test of `encodeData` on the first and the last number succeeds. -/
theorem HasBlock.not_numbersIncorrect (h : f.HasBlock) : ¬f.numbersIncorrect := by
  have hkeys := h.keys
  rintro (hfirst | hlast)
  · have hhead : f.ttss.first?.map Prod.fst = some (f.ttsNumber 1) := by
      rw [SortedMap.first?, ← List.head?_map, hkeys]
      rfl
    obtain ⟨e, he, hnumber⟩ := Option.map_eq_some_iff.mp hhead
    have hle := hfirst e he
    rw [hnumber, toNat_ttsNumber h.blockID_lt (by decide)] at hle
    simp only [ttssPerBlock] at hle
    omega
  · have hlast' : f.ttss.last?.map Prod.fst = some (f.ttsNumber ttssPerBlock) := by
      rw [SortedMap.last?, ← List.getLast?_map, hkeys]
      rfl
    obtain ⟨e, he, hnumber⟩ := Option.map_eq_some_iff.mp hlast'
    have hgt := hlast e he
    rw [hnumber, toNat_ttsNumber h.blockID_lt le_rfl] at hgt
    simp only [ttssPerBlock] at hgt
    omega

/-- The tell-tale at a position of the block. -/
theorem HasBlock.find?_ttsNumber (h : f.HasBlock) {k : ℕ} (hone : 1 ≤ k) (hk : k ≤ ttssPerBlock) :
    f.ttss.find? (f.ttsNumber k) = some (f.getTTS (f.ttsNumber k)) := by
  obtain ⟨tts, hfind⟩ :=
    Option.isSome_iff_exists.mp ((h.find?_isSome (f.ttsNumber k)).mpr ⟨k, hone, hk, rfl⟩)
  rw [getTTS, hfind]
  rfl

/-! ### Decoding -/

/-- The status that a payload gives to a position of the block: the even ones are in the low
parts of the bytes. -/
def statusAt (mem : Memory) (k : ℕ) : UInt8 :=
  if k % 2 = 0 then mem (k / 2) &&& ttsMask else (mem (k / 2) >>> ttsHighPartShift) &&& ttsMask

/-- Take over the statuses of some positions. -/
def setStatuses (mem : Memory) (f : FMS1Frame) (ks : List ℕ) : FMS1Frame :=
  ks.foldl (fun f k => f.setEntry (f.ttsNumber k) (statusAt mem k)) f

/-- The frame has the tell-tales of one block at most. -/
def selectBlock (f : FMS1Frame) (blockID : UInt8) : FMS1Frame :=
  { f with blockID := blockID, ttss := if f.blockID ≠ blockID then ∅ else f.ttss }

theorem setStatuses_cons (mem : Memory) (f : FMS1Frame) (k : ℕ) (ks : List ℕ) :
    setStatuses mem f (k :: ks) =
      setStatuses mem (f.setEntry (f.ttsNumber k) (statusAt mem k)) ks := rfl

/-- One byte gives two positions their statuses. -/
theorem run_decodeByte (f : FMS1Frame) (i : ℕ) (mem : Memory) :
    (decodeByte i).run f mem = (.ok (), setStatuses mem f [2 * i, 2 * i + 1]) := by
  have hlow : statusAt mem (2 * i) = mem i &&& ttsMask := by
    rw [statusAt, if_pos (by omega), Nat.mul_div_cancel_left i Nat.two_pos]
  have hhigh : statusAt mem (2 * i + 1) = (mem i >>> ttsHighPartShift) &&& ttsMask := by
    have hhalf : (2 * i + 1) / 2 = i := by omega
    rw [statusAt, if_neg (by omega), hhalf]
  rw [decodeByte, Method.run_byte_bind, Method.run_modify_bind, Method.run_modify,
    setStatuses_cons, setStatuses_cons, hlow, hhigh]
  rfl

theorem run_forEach_setStatuses (f : FMS1Frame) (is : List ℕ) (mem : Memory) :
    (Method.forEach is decodeByte).run f mem =
      (.ok (), setStatuses mem f (is.flatMap fun i => [2 * i, 2 * i + 1])) := by
  induction is generalizing f with
  | nil => rfl
  | cons i is ih =>
    rw [Method.forEach, Method.run_bind_of_ok (run_decodeByte f i mem), ih, List.flatMap_cons]
    rfl

/-- An accepted payload selects the block and gives all its tell-tales a status. -/
theorem run_decodeData_of_accepts (f : FMS1Frame) {mem : Memory}
    (hblock : mem 0 &&& blockIdMask < numberOfBlocks) :
    (decodeData fms1FrameLength).run f mem =
      (.ok (), setStatuses mem (f.selectBlock (mem 0 &&& blockIdMask))
        (List.range' 1 ttssPerBlock)) := by
  rw [decodeData, Method.run_throwIf_bind, if_neg (not_not.mpr rfl), Method.run_byte_bind,
    Method.run_throwIf_bind, if_neg (UInt8.not_le.mpr hblock), Method.run_modify_bind,
    Method.run_modify_bind, Method.run_modify_bind]
  have hselect : FMS1Frame.selectBlock f (mem 0 &&& blockIdMask) =
      { (if f.blockID ≠ mem 0 &&& blockIdMask then { f with ttss := ∅ } else f) with
        blockID := mem 0 &&& blockIdMask } := by
    rw [selectBlock]
    split_ifs <;> rfl
  have hpositions : List.range' 1 ttssPerBlock =
      1 :: (List.range' 1 (fms1FrameLength - 1)).flatMap fun i => [2 * i, 2 * i + 1] := by
    decide
  rw [hselect, run_forEach_setStatuses, hpositions, setStatuses_cons]
  rfl

@[simp] theorem blockID_setStatuses (mem : Memory) (f : FMS1Frame) (ks : List ℕ) :
    (setStatuses mem f ks).blockID = f.blockID := by
  induction ks generalizing f with
  | nil => rfl
  | cons k ks ih => rw [setStatuses_cons, ih, setEntry]

theorem find?_setEntry (f : FMS1Frame) (number status other : UInt8) :
    (f.setEntry number status).ttss.find? other =
      if other = number then some ⟨number, status⟩ else f.ttss.find? other :=
  SortedMap.find?_insert ..

/-- The other tell-tales keep their status. -/
theorem find?_setStatuses_of_notMem {mem : Memory} {f : FMS1Frame} {ks : List ℕ} {number : UInt8}
    (h : ∀ k ∈ ks, number ≠ f.ttsNumber k) :
    (setStatuses mem f ks).ttss.find? number = f.ttss.find? number := by
  induction ks generalizing f with
  | nil => rfl
  | cons k ks ih =>
    rw [List.forall_mem_cons] at h
    rw [setStatuses_cons, @ih (f.setEntry _ _) h.2, find?_setEntry, if_neg h.1]

/-- Every position is given the status that the payload holds for it. -/
theorem find?_setStatuses {mem : Memory} {f : FMS1Frame} (hblock : f.blockID < numberOfBlocks)
    {ks : List ℕ} (hks : ∀ k ∈ ks, k ≤ ttssPerBlock) {k : ℕ} (hk : k ∈ ks) :
    (setStatuses mem f ks).ttss.find? (f.ttsNumber k) =
      some ⟨f.ttsNumber k, statusAt mem k⟩ := by
  induction ks generalizing f with
  | nil => cases hk
  | cons j ks ih =>
    rw [List.forall_mem_cons] at hks
    rw [setStatuses_cons]
    by_cases hlater : k ∈ ks
    · exact ih hblock hks.2 hlater
    · have hkj : k = j := (List.mem_cons.mp hk).resolve_right hlater
      subst hkj
      rw [find?_setStatuses_of_notMem, find?_setEntry, if_pos rfl]
      intro i hi heq
      have hik : k = i := (ttsNumber_inj hblock hks.1 (hks.2 i hi)).mp heq
      exact hlater (hik ▸ hi)

/-- After a successful decoding the frame has the block that the payload names. -/
theorem hasBlock_setStatuses {mem : Memory} {f : FMS1Frame} (hblock : f.blockID < numberOfBlocks)
    (hnone : ∀ number, (f.ttss.find? number).isSome →
      ∃ k, 1 ≤ k ∧ k ≤ ttssPerBlock ∧ number = f.ttsNumber k) :
    (setStatuses mem f (List.range' 1 ttssPerBlock)).HasBlock := by
  have hmem : ∀ k, k ∈ List.range' 1 ttssPerBlock ↔ 1 ≤ k ∧ k ≤ ttssPerBlock := by
    intro k
    rw [List.mem_range'_1]
    omega
  have hnumber : ∀ k, (setStatuses mem f (List.range' 1 ttssPerBlock)).ttsNumber k =
      f.ttsNumber k := by
    intro k
    rw [ttsNumber, blockID_setStatuses, ttsNumber]
  refine ⟨by rw [blockID_setStatuses]; exact hblock, fun number => ⟨fun hsome => ?_, ?_⟩⟩
  · by_contra hnot
    rw [find?_setStatuses_of_notMem] at hsome
    · obtain ⟨k, hone, hk, heq⟩ := hnone number hsome
      exact hnot ⟨k, hone, hk, heq.trans (hnumber k).symm⟩
    · intro k hk heq
      exact hnot ⟨k, ((hmem k).mp hk).1, ((hmem k).mp hk).2, heq.trans (hnumber k).symm⟩
  · rintro ⟨k, hone, hk, rfl⟩
    rw [hnumber, find?_setStatuses hblock (fun j hj => ((hmem j).mp hj).2)
      ((hmem k).mpr ⟨hone, hk⟩)]
    rfl

/-- Only the tell-tales of the selected block are kept. -/
theorem HasBlock.hasBlock_decoded (h : f.HasBlock) {mem : Memory}
    (hblock : mem 0 &&& blockIdMask < numberOfBlocks) :
    (setStatuses mem (f.selectBlock (mem 0 &&& blockIdMask))
      (List.range' 1 ttssPerBlock)).HasBlock := by
  apply hasBlock_setStatuses hblock
  intro number hsome
  by_cases hsame : f.blockID ≠ mem 0 &&& blockIdMask
  · rw [selectBlock, if_pos hsame] at hsome
    cases hsome
  · rw [selectBlock, if_neg hsame] at hsome
    obtain ⟨k, hone, hk, heq⟩ := (h.find?_isSome number).mp hsome
    refine ⟨k, hone, hk, heq.trans ?_⟩
    rw [ttsNumber, ttsNumber, not_not.mp hsame, selectBlock]

theorem hasBlock_ofBlockID {blockID : UInt8} (hblock : blockID < numberOfBlocks) :
    (ofBlockID blockID hblock).HasBlock := by
  have hkeys : (ofBlockID blockID hblock).ttss.entries.map Prod.fst =
      (List.range' 1 ttssPerBlock).map (ofBlockID blockID hblock).ttsNumber := by
    have hlt : blockID.toNat < 4 := UInt8.lt_iff_toNat_lt.mp hblock
    obtain rfl | rfl | rfl | rfl : blockID = 0 ∨ blockID = 1 ∨ blockID = 2 ∨ blockID = 3 := by
      simp only [← UInt8.toNat_inj]
      change blockID.toNat = 0 ∨ blockID.toNat = 1 ∨ blockID.toNat = 2 ∨ blockID.toNat = 3
      omega
    all_goals rfl
  refine ⟨hblock, fun number => ?_⟩
  rw [SortedMap.isSome_find?_iff, hkeys, List.mem_map]
  refine exists_congr fun k => ?_
  rw [List.mem_range'_1, eq_comm (a := number)]
  constructor
  · rintro ⟨⟨hone, hlt⟩, heq⟩
    exact ⟨hone, by omega, heq⟩
  · rintro ⟨hone, hle, heq⟩
    exact ⟨⟨hone, by omega⟩, heq⟩

theorem HasBlock.setTTS (h : f.HasBlock) (number status : UInt8) :
    (f.setTTS number status).1.HasBlock := by
  rw [FMS1Frame.setTTS]
  cases hfind : f.ttss.find? number with
  | none => exact h
  | some tts =>
    refine ⟨h.blockID_lt, fun other => ?_⟩
    have hother := h.find?_isSome other
    rw [find?_setEntry]
    by_cases heq : other = number
    · rw [if_pos heq]
      rw [heq, hfind] at hother
      rw [heq]
      exact hother
    · rw [if_neg heq]
      exact hother

theorem Reachable.hasBlock (h : f.Reachable) : f.HasBlock ∧ getPriority f ≤ 7 := by
  induction h with
  | ofBlockID hblock => exact ⟨hasBlock_ofBlockID hblock, (by decide : (0 : UInt8) ≤ 7)⟩
  | @setTTS f h number status ih =>
    refine ⟨ih.1.setTTS number status, ?_⟩
    rw [FMS1Frame.setTTS]
    split
    · exact ih.2
    · exact ih.2
  | @decode f f' h identifier length mem hrun ih =>
    obtain ⟨hmatch, -, hheader⟩ := header_decode hrun
    have hprio : getPriority f' ≤ 7 :=
      (congrArg Header.priority hheader).trans_le (priority_receivedHeader _ _)
    refine ⟨?_, hprio⟩
    rw [run_decode_of_match hmatch] at hrun
    set g : FMS1Frame := withHeader f (receivedHeader (header f) identifier) with hg
    have hg' : g.HasBlock := ⟨ih.1.blockID_lt, ih.1.find?_isSome⟩
    obtain ⟨rfl, hblock⟩ : length = fms1FrameLength ∧ mem 0 &&& blockIdMask < numberOfBlocks := by
      refine (decodesWhen g length mem).ok_iff.mp ?_
      exact congrArg Prod.fst hrun
    have hdata := run_decodeData_of_accepts g hblock
    change (decodeData fms1FrameLength).run g mem = _ at hrun
    rw [hdata] at hrun
    cases hrun
    exact hg'.hasBlock_decoded hblock

/-! ### Encoding -/

/-- The status of a position of the block. -/
def status (f : FMS1Frame) (k : ℕ) : UInt8 := (f.getTTS (f.ttsNumber k)).status

/-- The bytes of the payload. -/
def payloadByte (f : FMS1Frame) (i : ℕ) : UInt8 :=
  (if i = 0 then f.blockID &&& blockIdMask else f.status (2 * i) ||| ttsEncodingMask) |||
    ((f.status (2 * i + 1) ||| ttsEncodingMask) <<< ttsHighPartShift)

theorem HasBlock.encodedStatus (h : f.HasBlock) {k : ℕ} (hone : 1 ≤ k) (hk : k ≤ ttssPerBlock) :
    f.encodedStatus (f.ttsNumber k) = .ok (f.status k ||| ttsEncodingMask) := by
  rw [FMS1Frame.encodedStatus, h.find?_ttsNumber hone hk]
  rfl

theorem HasBlock.mapM_encodeByte (h : f.HasBlock) {is : List ℕ}
    (his : ∀ i ∈ is, 1 ≤ i ∧ i < fms1FrameLength) :
    is.mapM f.encodeByte = .ok (is.map f.payloadByte) := by
  induction is with
  | nil => rfl
  | cons i is ih =>
    rw [List.forall_mem_cons] at his
    obtain ⟨hone, hlt⟩ := his.1
    have hlt' : i < 8 := hlt
    have hbyte : f.encodeByte i = .ok (f.payloadByte i) := by
      rw [encodeByte, h.encodedStatus (by omega) (by change _ ≤ 15; omega),
        h.encodedStatus (by omega) (by change _ ≤ 15; omega), payloadByte, if_neg (by omega)]
      rfl
    rw [List.mapM_cons, hbyte, ih his.2]
    rfl

/-- A frame with all its tell-tales is encoded. -/
theorem HasBlock.encodeData (h : f.HasBlock) (buffer : List UInt8) :
    f.encodeData buffer =
      .ok (writeBytes buffer 0 ((List.range fms1FrameLength).map f.payloadByte)) := by
  rw [FMS1Frame.encodeData, if_neg (not_not.mpr h.size_eq), if_neg h.not_numbersIncorrect,
    h.encodedStatus le_rfl (by decide), h.mapM_encodeByte fun i hi => by
      rw [List.mem_range'_1] at hi
      exact ⟨hi.1, hi.2⟩]
  rfl

theorem testBit_ttsMask (k : ℕ) : ttsMask.toNat.testBit k = decide (k < 3) :=
  Nat.testBit_two_pow_sub_one 3 k

theorem testBit_ttsEncodingMask (k : ℕ) : ttsEncodingMask.toNat.testBit k = decide (3 = k) :=
  @Nat.testBit_two_pow 3 k

/-- The low part of a byte is read without what the high part has added. -/
theorem lowPart (low high : UInt8) :
    ((low ||| ttsEncodingMask) ||| (high <<< ttsHighPartShift)) &&& ttsMask = low &&& ttsMask := by
  apply byte_ext
  intro k hk
  have hshift : (high <<< ttsHighPartShift).toNat.testBit k =
      (decide (4 ≤ k) && high.toNat.testBit (k - 4)) := testBit_shiftLeft high 4 (by decide) hk
  simp only [UInt8.toNat_and, UInt8.toNat_or, Nat.testBit_and, Nat.testBit_or, testBit_ttsMask,
    testBit_ttsEncodingMask, hshift]
  by_cases hin : k < 3
  · rw [decide_eq_false (by omega : ¬3 = k), decide_eq_false (by omega : ¬4 ≤ k)]
    simp
  · rw [decide_eq_false hin, Bool.and_false, Bool.and_false]

/-- The high part of a byte is read together with what the low part has added. -/
theorem highPart (low high : UInt8) :
    ((low ||| ((high ||| ttsEncodingMask) <<< ttsHighPartShift)) >>> ttsHighPartShift) &&& ttsMask =
      ((low >>> ttsHighPartShift) ||| high) &&& ttsMask := by
  apply byte_ext
  intro k hk
  have hright : ∀ x : UInt8, (x >>> ttsHighPartShift).toNat.testBit k =
      x.toNat.testBit (k + 4) := by
    intro x
    rw [Nat.add_comm]
    exact testBit_shiftRight x 4 (by decide) k
  simp only [UInt8.toNat_and, Nat.testBit_and, hright, UInt8.toNat_or, Nat.testBit_or,
    testBit_ttsMask]
  by_cases hin : k < 3
  · have hshift : ((high ||| ttsEncodingMask) <<< ttsHighPartShift).toNat.testBit (k + 4) =
        (decide (4 ≤ k + 4) && (high ||| ttsEncodingMask).toNat.testBit (k + 4 - 4)) :=
      testBit_shiftLeft _ 4 (by decide) (by omega)
    rw [hshift, decide_eq_true (by omega), Nat.add_sub_cancel, UInt8.toNat_or, Nat.testBit_or,
      testBit_ttsEncodingMask, decide_eq_false (by omega : ¬3 = k)]
    simp
  · rw [decide_eq_false hin, Bool.and_false, Bool.and_false]

/-- Added bits are not seen exactly when they are there already. -/
theorem or_and_eq_iff (added own mask : UInt8) :
    (added ||| own) &&& mask = own &&& mask ↔ (added &&& mask) &&& ~~~own = 0 := by
  have hbits : ∀ x y : UInt8, x = y ↔ ∀ k < 8, x.toNat.testBit k = y.toNat.testBit k :=
    fun x y => ⟨fun h k _ => by rw [h], byte_ext⟩
  rw [hbits, hbits]
  refine forall₂_congr fun k hk => ?_
  simp only [UInt8.toNat_and, UInt8.toNat_or, Nat.testBit_and, Nat.testBit_or, testBit_not _ hk]
  cases added.toNat.testBit k <;> cases own.toNat.testBit k <;> cases mask.toNat.testBit k <;> simp

/-- What the added bits of a position leave of the one that shares its byte. -/
theorem statusAt_payload {mem : Memory} (hmem : ∀ i < fms1FrameLength, mem i = f.payloadByte i)
    {k : ℕ} (hone : 1 ≤ k) (hk : k ≤ ttssPerBlock) :
    statusAt mem k =
      if k % 2 = 0 ∨ k = 1 then f.status k &&& ttsMask
      else ((f.status (k - 1) >>> ttsHighPartShift) ||| f.status k) &&& ttsMask := by
  have hk' : k ≤ 15 := hk
  have hbyte : mem (k / 2) = f.payloadByte (k / 2) := hmem _ (by change _ < 8; omega)
  rw [statusAt, hbyte, payloadByte]
  by_cases heven : k % 2 = 0
  · have hhalf : 2 * (k / 2) = k := by omega
    rw [if_pos heven, if_neg (by omega : ¬k / 2 = 0), hhalf, if_pos (Or.inl heven)]
    exact lowPart _ _
  · have hhalf : 2 * (k / 2) + 1 = k := by omega
    rw [if_neg heven, hhalf, highPart]
    by_cases hfirst : k = 1
    · have hzero : (f.blockID &&& blockIdMask) >>> ttsHighPartShift = 0 := by
        rw [UInt8.shiftRight_and]
        exact UInt8.and_zero
      rw [if_pos (by omega : k / 2 = 0), if_pos (Or.inr hfirst), hzero, UInt8.zero_or]
    · have hlow : (f.status (2 * (k / 2)) ||| ttsEncodingMask) >>> ttsHighPartShift =
          f.status (k - 1) >>> ttsHighPartShift := by
        have hprev : 2 * (k / 2) = k - 1 := by omega
        rw [UInt8.shiftRight_or, hprev]
        exact UInt8.or_zero
      rw [if_neg (by omega : ¬k / 2 = 0), if_neg (by omega : ¬(k % 2 = 0 ∨ k = 1)), hlow]

/-- The high part of the first byte does not reach into the number of the block. -/
theorem HasBlock.payload_blockID (h : f.HasBlock) :
    f.payloadByte 0 &&& blockIdMask = f.blockID := by
  have hlt : f.blockID.toNat < 4 := UInt8.lt_iff_toNat_lt.mp h.blockID_lt
  have hsmall : f.blockID &&& blockIdMask = f.blockID :=
    (@Bits.and_lowByte_eq_iff _ _ 4 rfl).mpr (hlt.trans (by decide))
  rw [payloadByte, if_pos rfl, and_blockIdMask, hsmall]

/-- The bits above the low part of an even position are set in the next position. -/
def Contained (f : FMS1Frame) : Prop :=
  ∀ i, 1 ≤ i → i < fms1FrameLength →
    ((f.status (2 * i) >>> ttsHighPartShift) &&& ttsMask) &&& ~~~f.status (2 * i + 1) = 0

/-- A frame of a block is encoded into its bytes. -/
theorem HasBlock.encode (h : f.HasBlock) (hprio : getPriority f ≤ 7) :
    ∃ e, J1939.encode f fms1FrameLength = .ok e ∧ e.identifier = getIdentifier f ∧
      e.buffer.length = fms1FrameLength ∧ ∀ (beyond : Memory), ∀ i < fms1FrameLength,
        Memory.ofList e.buffer beyond i = f.payloadByte i := by
  set out := writeBytes (List.replicate fms1FrameLength 0xFF) 0
    ((List.range fms1FrameLength).map f.payloadByte) with hout
  have houtLength : out.length = fms1FrameLength := by
    rw [hout, length_writeBytes, List.length_replicate]
  refine ⟨⟨getIdentifier f, out, fms1FrameLength⟩, encode_eq_ok_iff.mpr ⟨hprio, le_rfl,
    h.encodeData _, rfl, rfl⟩, rfl, houtLength, fun beyond i hi => ?_⟩
  have hin : i < out.length := houtLength.symm ▸ hi
  have hrange : i < ((List.range fms1FrameLength).map f.payloadByte).length := by
    rw [List.length_map, List.length_range]
    exact hi
  rw [Memory.ofList_of_lt hin, ← List.getD_eq_getElem _ 0 hin, hout,
    getD_writeBytes _ _ _ (by simp), if_pos ⟨Nat.zero_le i, by omega⟩, Nat.sub_zero,
    List.getD_eq_getElem _ _ hrange, List.getElem_map, List.getElem_range]

/-- What any frame makes of these bytes. -/
theorem HasBlock.decode_payload (h : f.HasBlock) (hprio : getPriority f ≤ 7) {mem : Memory}
    (hmem : ∀ i < fms1FrameLength, mem i = f.payloadByte i) (g : FMS1Frame) :
    ∃ g', (J1939.decode (getIdentifier f) fms1FrameLength).run g mem = (.ok (), g') ∧
      g'.blockID = f.blockID ∧ ∀ k, 1 ≤ k → k ≤ ttssPerBlock →
        g'.ttss.find? (f.ttsNumber k) = some ⟨f.ttsNumber k, statusAt mem k⟩ := by
  have hpgn : getPGN f = fms1Pgn := rfl
  have hmatch : lookupPgn (getIdentifier f) = getPGN f := by
    apply (lookupPgn_iff hprio _ _).mpr <;> rw [hpgn] <;> decide
  have hid : mem 0 &&& blockIdMask = f.blockID := by
    rw [hmem 0 (by decide)]
    exact h.payload_blockID
  set g₀ : FMS1Frame := withHeader g (receivedHeader (header g) (getIdentifier f)) with hg₀
  have hrun := run_decodeData_of_accepts g₀ (hid.symm ▸ h.blockID_lt)
  rw [hid] at hrun
  refine ⟨_, (@run_decode_of_match _ _ g _ _ _ hmatch).trans hrun, blockID_setStatuses _ _ _,
    fun k hone hk => ?_⟩
  refine @find?_setStatuses mem (g₀.selectBlock f.blockID) h.blockID_lt _ (fun j hj => ?_) k
    (List.mem_range'_1.mpr ⟨hone, by omega⟩)
  rw [List.mem_range'_1] at hj
  omega

/-- A frame of a block is encoded, and another frame that decodes the payload has the block, but
it has the low parts of all statuses exactly when those of the even positions disturb none of
their neighbours. -/
theorem restored_iff (h : f.Reachable) :
    f.ttss.size = ttssPerBlock ∧
      ∃ e, encode f fms1FrameLength = .ok e ∧ e.buffer.length = fms1FrameLength ∧
        ∀ (g : FMS1Frame) (beyond : Memory), ∃ g',
          (J1939.decode e.identifier e.buffer.length).run g (Memory.ofList e.buffer beyond) =
              (.ok (), g') ∧
            g'.blockID = f.blockID ∧
              ((∀ number tts, f.ttss.find? number = some tts →
                  g'.ttss.find? number = some ⟨number, tts.status &&& ttsMask⟩) ↔
                f.Contained) := by
  obtain ⟨hblock, hprio⟩ := h.hasBlock
  obtain ⟨e, hencode, hid, hlength, hbytes⟩ := hblock.encode hprio
  refine ⟨hblock.size_eq, e, hencode, hlength, fun g beyond => ?_⟩
  have hmem := hbytes beyond
  obtain ⟨g', hrun, hblockID, hread⟩ := hblock.decode_payload hprio hmem g
  rw [hid, hlength]
  refine ⟨g', hrun, hblockID, ?_⟩
  constructor
  · intro hall i hone hi
    have hi' : i < 8 := hi
    have hk : 2 * i + 1 ≤ ttssPerBlock := by change _ ≤ 15; omega
    have hfind := hall _ _ (hblock.find?_ttsNumber (by omega) hk)
    rw [hread _ (by omega) hk, statusAt_payload hmem (by omega) hk,
      if_neg (by omega)] at hfind
    rw [← or_and_eq_iff]
    exact congrArg TellTale.status (Option.some.inj hfind)
  · intro hcontained number tts hfind
    obtain ⟨k, hone, hk, rfl⟩ := (hblock.find?_isSome number).mp (by rw [hfind]; rfl)
    have hk' : k ≤ 15 := hk
    have htts : f.getTTS (f.ttsNumber k) = tts :=
      Option.some.inj ((hblock.find?_ttsNumber hone hk).symm.trans hfind)
    rw [hread k hone hk, statusAt_payload hmem hone hk, ← htts]
    split_ifs with hclear
    · rfl
    · have hprev := hcontained (k / 2) (by omega) (by change _ < 8; omega)
      have hlow : 2 * (k / 2) = k - 1 := by omega
      have hhigh : 2 * (k / 2) + 1 = k := by omega
      rw [hhigh, hlow, ← or_and_eq_iff] at hprev
      rw [hprev]
      rfl

/-- A new frame of block 0. -/
def firstBlock : FMS1Frame := ofBlockID 0 (by decide)

theorem firstBlock_reachable : firstBlock.Reachable := .ofBlockID _

/-- The second tell-tale gets a status above 7, the third one is off. -/
def leaking : FMS1Frame := ((firstBlock.setTTS 2 0x10).1.setTTS 3 0).1

theorem leaking_reachable : leaking.Reachable :=
  (firstBlock_reachable.setTTS 2 0x10).setTTS 3 0

/-- The status of the second tell-tale shows in the third one. -/
theorem leaking_not_restored :
    ¬∀ f : FMS1Frame, f.Reachable → ∃ e, encode f fms1FrameLength = .ok e ∧
      ∀ (g : FMS1Frame) (beyond : Memory), ∃ g',
        (J1939.decode e.identifier e.buffer.length).run g (Memory.ofList e.buffer beyond) =
            (.ok (), g') ∧
          g'.blockID = f.blockID ∧ ∀ number tts, f.ttss.find? number = some tts →
            g'.ttss.find? number = some ⟨number, tts.status &&& ttsMask⟩ := by
  intro h
  obtain ⟨e, hencode, hdecode⟩ := h leaking leaking_reachable
  obtain ⟨g', hrun, -, hall⟩ := hdecode new fun _ => 0
  have hbytes : Except.map (fun e => (e.identifier, e.buffer)) (encode leaking fms1FrameLength) =
      .ok (0x00FD7DFE, [0xF0, 0x98, 0xFF, 0xFF, 0xFF, 0xFF, 0xFF, 0xFF]) := by decide +kernel
  rw [hencode] at hbytes
  obtain ⟨hid, hbuffer⟩ := Prod.mk.inj (Except.ok.inj hbytes)
  have hthird := hall 3 ⟨3, 0⟩ (by decide)
  have hg' := congrArg (fun r => r.2.ttss.find? 3) hrun
  rw [hid, hbuffer] at hg'
  have hread : ((J1939.decode 0x00FD7DFE 8).run FMS1Frame.new (Memory.ofList
      [0xF0, 0x98, 0xFF, 0xFF, 0xFF, 0xFF, 0xFF, 0xFF] fun _ => 0)).2.ttss.find? 3 =
        some ⟨3, 1⟩ := by decide +kernel
  rw [← hg'] at hthird
  exact absurd (hread.symm.trans hthird) (by decide)

/-- Statuses up to 7 disturb nothing. -/
theorem firstBlock_restored :
    firstBlock.ttss.size = ttssPerBlock ∧
      ∃ e, encode firstBlock fms1FrameLength = .ok e ∧ e.buffer.length = fms1FrameLength ∧
        ∀ (g : FMS1Frame) (beyond : Memory), ∃ g',
          (J1939.decode e.identifier e.buffer.length).run g (Memory.ofList e.buffer beyond) =
              (.ok (), g') ∧
            g'.blockID = 0 ∧
              ((∀ number tts, firstBlock.ttss.find? number = some tts →
                  g'.ttss.find? number = some ⟨number, tts.status &&& ttsMask⟩) ↔
                firstBlock.Contained) :=
  restored_iff firstBlock_reachable

end FMS1Frame

end J1939
