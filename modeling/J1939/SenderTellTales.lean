import J1939.SenderRings
import J1939.TellTales

/-!
# Tell-tales on the interfaces

The four tell-tale frames are sent in one ring. No other frame has its identifiers, so what an
interface carries there are always the tell-tales as they are.
-/

namespace J1939

open CommonCanSender Except

/-! ### The frames -/

/-- The tell-tale frames have the headers of the initial ones, and the tell-tales of a block. -/
structure TtsFrames (frames : List FMS1Frame) : Prop where
  headers : frames.map FMS1Frame.toHeader = initialFms1Frames.map FMS1Frame.toHeader
  reachable : ∀ f ∈ frames, f.Reachable

theorem ttsFrames_initial : TtsFrames initialFms1Frames := by
  refine ⟨rfl, fun f hf => ?_⟩
  obtain ⟨block, -, rfl⟩ := List.mem_map.mp hf
  exact .ofBlockID (blockID_lt block)

/-- Setting a tell-tale changes one frame at most, by `setTTS`. -/
theorem setFirstTTS_keeps {P : FMS1Frame → Prop} (number status : UInt8) {frames : List FMS1Frame}
    (hset : ∀ f ∈ frames, P (f.setTTS number status).1) (hframes : ∀ f ∈ frames, P f) :
    ∀ f ∈ (setFirstTTS number status frames).1, P f := by
  induction frames with
  | nil => exact hframes
  | cons frame frames ih =>
    rw [List.forall_mem_cons] at hset hframes
    rw [setFirstTTS]
    split_ifs
    · exact List.forall_mem_cons.mpr ⟨hset.1, hframes.2⟩
    · exact List.forall_mem_cons.mpr ⟨hframes.1, ih hset.2 hframes.2⟩

theorem toHeader_setTTS (f : FMS1Frame) (number status : UInt8) :
    (f.setTTS number status).1.toHeader = f.toHeader := by
  rw [FMS1Frame.setTTS]
  split <;> rfl

theorem toHeader_setFirstTTS (number status : UInt8) (frames : List FMS1Frame) :
    (setFirstTTS number status frames).1.map FMS1Frame.toHeader =
      frames.map FMS1Frame.toHeader := by
  induction frames with
  | nil => rfl
  | cons frame frames ih =>
    rw [setFirstTTS]
    split_ifs
    · rw [List.map_cons, List.map_cons, toHeader_setTTS]
    · rw [List.map_cons, List.map_cons, ih]

namespace TtsFrames

variable {frames : List FMS1Frame}

theorem setFirstTTS (h : TtsFrames frames) (number status : UInt8) :
    TtsFrames (J1939.setFirstTTS number status frames).1 :=
  ⟨(toHeader_setFirstTTS number status frames).trans h.headers,
    setFirstTTS_keeps number status (fun f hf => (h.reachable f hf).setTTS number status)
      h.reachable⟩

/-- The identifiers are those of the beginning. -/
theorem ttsIds_eq (h : TtsFrames frames) : ttsIds frames = ttsIds initialFms1Frames := by
  have hids : ∀ fs : List FMS1Frame, ttsIds fs = (fs.map FMS1Frame.toHeader).map fun header =>
      ({ header with pgn := fms1Pgn } : J1939Frame).getIdentifier := by
    intro fs
    rw [ttsIds, List.map_map]
    rfl
  rw [hids, hids, h.headers]

/-- Tell-tale frames can always be encoded. -/
theorem exists_canFrames (h : TtsFrames frames) :
    ∃ canFrames, ttsFramesToCanFrames frames = .ok canFrames ∧
      canFrames.map CanFrame.id = ttsIds frames := by
  have hencodes : ∀ fs : List FMS1Frame, (∀ f ∈ fs, f.Reachable) →
      ∃ canFrames, ttsFramesToCanFrames fs = .ok canFrames := by
    intro fs hfs
    induction fs with
    | nil => exact ⟨[], rfl⟩
    | cons f fs ih =>
      rw [List.forall_mem_cons] at hfs
      obtain ⟨canFrames, hrest⟩ := ih hfs.2
      obtain ⟨hblock, hprio⟩ := hfs.1.hasBlock
      obtain ⟨e, hencode, -⟩ := hblock.encode hprio
      refine ⟨e.toCan :: canFrames, ?_⟩
      rw [ttsFramesToCanFrames] at hrest ⊢
      rw [List.mapM_cons, encodeCan_eq hencode, hrest]
      rfl
  obtain ⟨canFrames, hcan⟩ := hencodes frames h.reachable
  exact ⟨canFrames, hcan, ids_mapM_encodeCan hcan⟩

end TtsFrames

/-! ### The identifiers are their own -/

/-- A long frame is looked for under the identifier of its connection frame first. -/
theorem head_sentIds {frame : Frame} {ids : List UInt32}
    (hlong : getDataLength frame > maxCanDataSize) (h : sentIds frame = .ok ids) :
    ids.head? = some (transportId tpCmPgn (getPriority frame) (getSrcAddr frame)) := by
  rw [sentIds, if_pos hlong] at h
  have hnot : ¬getDataLength frame ≤ maxSize := not_le.mpr hlong
  cases hencode : encode frame (getDataLength frame) with
  | error e =>
    rw [BamFragmenter.fragment, if_neg hnot, hencode] at h
    cases h
  | ok encoded =>
    rw [BamFragmenter.fragment, if_neg hnot, hencode] at h
    cases h
    rw [List.head?_cons, BamFragmenter.getConnFrame, connFrame_eq]
    rfl

theorem lookupPgn_transportId (priority source : UInt8) :
    lookupPgn (transportId tpCmPgn priority source) = tpCmPgn := by
  have hprio : priority &&& priorityMask ≤ 7 := by
    rw [UInt8.le_iff_toNat_le, UInt8.toNat_and]
    exact Nat.and_le_right
  have hpgn : constructorAssertion tpCmPgn := by decide
  have hlt : tpCmPgn ≤ 0x3FFFF := by decide
  have hreads : PgnReadsBack tpCmPgn := by decide
  exact (lookupPgn_getIdentifier_iff (b := transportBase tpCmPgn priority source) hprio
    hpgn hlt).mpr hreads

/-- No frame is sent under the identifiers of the tell-tales. -/
theorem ids_ne_ttsIds {frame : Frame} {ids : List UInt32} (h : sentIds frame = .ok ids) :
    ids ≠ ttsIds initialFms1Frames := by
  rintro rfl
  by_cases hlong : getDataLength frame > maxCanDataSize
  · have hhead := head_sentIds hlong h
    have hpgn := congrArg (Option.map lookupPgn) hhead
    rw [Option.map_some, lookupPgn_transportId] at hpgn
    exact absurd hpgn (by decide)
  · rw [sentIds, if_neg hlong] at h
    have hlength := congrArg (Except.map List.length) h
    cases hlength

/-! ### What is carried -/

/-- The sender carries the tell-tales as they are, or none. -/
def CarriesTTS (frames : List FMS1Frame) (sender : CommonCanSender) : Prop :=
  ∃ m, sender.Carries m ∧
    ∀ v ∈ m (ttsIds initialFms1Frames), ttsFramesToCanFrames frames = .ok v.1

section CarriesTTS

variable {frames : List FMS1Frame} {sender : CommonCanSender}
variable {result : CommonCanSender × List CanFrame}

/-- Frames under other identifiers are sent. -/
theorem CarriesTTS.sendFrames (h : CarriesTTS frames sender) {canFrames : List CanFrame}
    (hne : canFrames ≠ []) (hids : canFrames.map CanFrame.id ≠ ttsIds initialFms1Frames)
    (period : UInt32) : CarriesTTS frames (sender.sendFrames canFrames period) := by
  obtain ⟨m, hm, hcurrent⟩ := h
  refine ⟨_, hm.sendFrames hne period, ?_⟩
  rw [Function.update_of_ne hids.symm]
  exact hcurrent

theorem CarriesTTS.unSendFrames (h : CarriesTTS frames sender) (ids : List UInt32) :
    CarriesTTS frames (sender.unSendFrames ids) := by
  obtain ⟨m, hm, hcurrent⟩ := h
  refine ⟨_, hm.unSendFrames ids, fun v hv => ?_⟩
  rw [Function.update_apply] at hv
  split_ifs at hv
  · cases hv
  · exact hcurrent v hv

theorem CarriesTTS.sendFrameThroughInterface (h : CarriesTTS frames sender) {frame : Frame}
    {period : UInt32} (hsend : J1939.sendFrameThroughInterface sender frame period = .ok result) :
    CarriesTTS frames result.1 := by
  rw [sendFrameThroughInterface_eq] at hsend
  cases hcan : canFramesOf frame with
  | error e =>
    rw [hcan] at hsend
    cases hsend
  | ok canFrames =>
    rw [hcan] at hsend
    cases hsend
    obtain ⟨hids, hne⟩ := sentIds_of_canFramesOf hcan
    split_ifs
    · exact h
    · exact h.sendFrames hne (ids_ne_ttsIds hids) period

theorem CarriesTTS.resend (h : CarriesTTS frames sender) {frame : Frame} {period : UInt32}
    (hresend : J1939.resend frame period sender = .ok result) : CarriesTTS frames result.1 := by
  unfold J1939.resend at hresend
  cases hsent : isFrameSent sender frame with
  | error e =>
    rw [hsent] at hresend
    cases hresend
  | ok sent =>
    rw [hsent] at hresend
    change (if sent then _ else _) = _ at hresend
    split_ifs at hresend
    · exact h.sendFrameThroughInterface hresend
    · cases hresend
      exact h

/-- The tell-tales are sent as they are. -/
theorem CommonCanSender.Mapped.carriesTTS (h : sender.Mapped) (hframes : TtsFrames frames)
    {period : UInt32} (hsend : J1939.sendTTS frames period sender = .ok result) :
    CarriesTTS frames result.1 := by
  obtain ⟨canFrames, hcan, hids⟩ := hframes.exists_canFrames
  rw [hframes.ttsIds_eq] at hids
  have hne : canFrames ≠ [] := by
    rintro rfl
    exact absurd hids (by decide)
  rw [J1939.sendTTS, hcan] at hsend
  cases hsend
  obtain ⟨m, hm⟩ := h
  refine ⟨_, hm.sendFrames hne period, ?_⟩
  rw [hids, Function.update_self]
  rintro _ ⟨⟩
  exact hcan

/-- Tell-tales that have been set replace those that are sent. -/
theorem CarriesTTS.resendTTS (h : CarriesTTS frames sender) {frames' : List FMS1Frame}
    (hframes : TtsFrames frames') {period : UInt32}
    (hresend : J1939.resendTTS frames' period sender = .ok result) :
    CarriesTTS frames' result.1 := by
  obtain ⟨m, hm, -⟩ := h
  unfold J1939.resendTTS at hresend
  split_ifs at hresend with hsent
  · exact Mapped.carriesTTS ⟨m, hm⟩ hframes hresend
  · cases hresend
    rw [hframes.ttsIds_eq, hm.isSent_iff, Option.not_isSome_iff_eq_none] at hsent
    refine ⟨m, hm, fun v hv => ?_⟩
    rw [hsent] at hv
    cases hv

end CarriesTTS

/-- The tell-tale frames are what they were, and every interface carries them as they are. -/
structure TellTalesCurrent (s : SenderState) : Prop where
  frames : TtsFrames s.fms1Frames
  carries : s.Each (CarriesTTS s.fms1Frames)

theorem CarriesTTS.mapped {frames : List FMS1Frame} {sender : CommonCanSender}
    (h : CarriesTTS frames sender) : sender.Mapped :=
  h.imp fun _ hm => hm.1

theorem tellTalesCurrent_initial (ifaces : List Token) :
    TellTalesCurrent (.initial ifaces) :=
  ⟨ttsFrames_initial,
    SenderState.each_initial ⟨_, carries_new, by rintro v ⟨⟩⟩ ifaces⟩

/-- Every step keeps the tell-tales current. -/
theorem SenderStep.tellTalesCurrent {env : SenderEnv} {s s' : SenderState}
    (h : SenderStep env s s') (hs : TellTalesCurrent s) : TellTalesCurrent s' := by
  obtain ⟨hframes, hcarries⟩ := hs
  cases h with
  | create | fill | framePeriod | ttsPeriod => exact ⟨hframes, hcarries⟩
  | send h =>
    have honly := onlySends_onInterface s _ _ s' h
    refine ⟨honly.fms1Frames ▸ hframes, honly.fms1Frames ▸ ?_⟩
    exact hcarries.onInterface (fun _ _ hc hsend => hc.sendFrameThroughInterface hsend) h
  | notify h =>
    have honly := onlySends_onInterfaces s _ s' h
    refine ⟨honly.fms1Frames ▸ hframes, honly.fms1Frames ▸ ?_⟩
    exact hcarries.onInterfaces (fun _ _ hc hresend => hc.resend hresend) h
  | unsend ids chosen =>
    exact ⟨hframes, hcarries.unsend (fun _ ids hc => hc.unSendFrames ids) ids chosen⟩
  | sendTTS h =>
    have honly := onlySends_onInterface s _ _ s' h
    refine ⟨honly.fms1Frames ▸ hframes, honly.fms1Frames ▸ ?_⟩
    exact hcarries.onInterface (fun _ _ hc hsend => hc.mapped.carriesTTS hframes hsend) h
  | setTTS number status h =>
    have honly := onlySends_onInterfaces _ _ s' h
    have hset := hframes.setFirstTTS number status
    refine ⟨honly.fms1Frames ▸ hset, honly.fms1Frames ▸ ?_⟩
    have hbefore : SenderState.Each (CarriesTTS s.fms1Frames)
        { s with fms1Frames := (setFirstTTS number status s.fms1Frames).1 } := hcarries
    exact hbefore.onInterfaces (fun _ _ hc hresend => hc.resendTTS hset hresend) h

/-- One interface, and the tell-tale frames with a period. -/
def ttsState (frames : List FMS1Frame) (sender : CommonCanSender) : SenderState :=
  { SenderState.initial ["can0".toList] with
    fms1Frames := frames
    ttsPeriod := 100
    senders := (∅ : SortedMap Token CommonCanSender).insert "can0".toList sender }

/-- The tell-tale frames on the bus, from their first payload on. -/
def ttsRing (payload : List UInt8) : CommonCanSender where
  frameRings := [{
    frames := (payload :: [0xF1, 0xF2, 0xF3].map fun octet => octet :: List.replicate 7 0xFF).map
      (CanFrame.mk 16612862)
    period := 100 }]

end J1939
