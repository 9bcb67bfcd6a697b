import J1939.Lib.KeyedList
import J1939.SenderRuns
import J1939.Schedule

/-!
# What the interfaces carry

The rings of a sender stand for a map from lists of identifiers to the frames that are sent under
them and their period. The commands change these maps, the passes of the senders' threads do not.
-/

namespace J1939

open Except

/-! ### The map of a sender -/

/-- The identifiers of the frames of a ring. -/
def CanFrameRing.ids (ring : CanFrameRing) : List UInt32 := ring.frames.map CanFrame.id

/-- What is sent again and again: the frames and the period. -/
def CanFrameRing.sends (ring : CanFrameRing) : List CanFrame × UInt32 := (ring.frames, ring.period)

/-- What a sender carries, by the identifiers. -/
abbrev CarriedFrames := List UInt32 → Option (List CanFrame × UInt32)

namespace CommonCanSender

/-- The rings of the sender stand for the map. -/
def Carries (sender : CommonCanSender) (m : CarriedFrames) : Prop :=
  sender.frameRings.Represents CanFrameRing.ids CanFrameRing.sends m

variable {sender : CommonCanSender} {m : CarriedFrames}

theorem carries_new : ({} : CommonCanSender).Carries fun _ => none := List.represents_nil

theorem Carries.sendFrames (h : sender.Carries m) {frames : List CanFrame} (hframes : frames ≠ [])
    (period : UInt32) : (sender.sendFrames frames period).Carries
      (Function.update m (frames.map CanFrame.id) (some (frames, period))) := by
  rw [CommonCanSender.sendFrames, if_neg hframes]
  exact h.replace { frames := frames, period := period }

theorem Carries.unSendFrames (h : sender.Carries m) (ids : List UInt32) :
    (sender.unSendFrames ids).Carries (Function.update m ids none) :=
  h.erase ids

theorem Carries.isSent_iff (h : sender.Carries m) (ids : List UInt32) :
    sender.isSent ids = true ↔ (m ids).isSome := by
  rw [CommonCanSender.isSent, List.any_eq_true, Option.isSome_iff_ne_none, h.ne_none_iff]
  simp only [decide_eq_true_eq]
  rfl

/-- A pass of the thread sends the frames, and carries on. -/
theorem Carries.passRings (h : sender.Carries m) (now : Timespec) :
    Carries ⟨(CommonCanSender.passRings now sender.frameRings).1⟩ m := by
  refine h.of_map_eq ?_
  induction sender.frameRings with
  | nil => rfl
  | cons ring rings ih =>
    rw [CommonCanSender.passRings, List.map_cons, List.map_cons, ih, CanFrameRing.ids,
      CanFrameRing.sends, CanFrameRing.frames_tick, CanFrameRing.period_tick]
    rfl

end CommonCanSender

/-! ### Identifiers of what is sent -/

/-- A CAN frame has the identifier of its frame. -/
theorem id_encodeCan {F : Type} [IsJ1939Frame F] {frame : F} {canFrame : CanFrame}
    (h : encodeCan frame = .ok canFrame) : canFrame.id = getIdentifier frame := by
  unfold encodeCan at h
  split at h
  · cases h
  · next encoded hencode =>
    cases h
    obtain ⟨-, -, -, hid, -⟩ := encode_eq_ok_iff.mp hencode
    exact hid

theorem ids_mapM_encodeCan {F : Type} [IsJ1939Frame F] {frames : List F}
    {canFrames : List CanFrame} (h : frames.mapM encodeCan = .ok canFrames) :
    canFrames.map CanFrame.id = frames.map getIdentifier := by
  induction frames generalizing canFrames with
  | nil =>
    cases h
    rfl
  | cons frame frames ih =>
    rw [List.mapM_cons] at h
    cases hframe : encodeCan frame with
    | error e =>
      rw [hframe] at h
      cases h
    | ok canFrame =>
      cases hrest : frames.mapM encodeCan with
      | error e =>
        rw [hframe, hrest] at h
        cases h
      | ok rest =>
        rw [hframe, hrest] at h
        cases h
        rw [List.map_cons, List.map_cons, id_encodeCan hframe, ih hrest]

/-- The CAN frames of a long frame are found again under the identifiers of the frame. -/
theorem sentIds_of_encodeBam {frame : Frame} {canFrames : List CanFrame}
    (hlong : getDataLength frame > maxCanDataSize) (h : encodeBam frame = .ok canFrames) :
    sentIds frame = .ok (canFrames.map CanFrame.id) ∧ canFrames ≠ [] := by
  rw [sentIds, if_pos hlong]
  rw [encodeBam] at h
  rcases hfragment : ({} : BamFragmenter).fragment frame with ⟨_ | done, fragmenter⟩
  · rw [hfragment] at h
    cases h
  · rw [hfragment] at h
    cases hconn : encodeCan fragmenter.getConnFrame with
    | error e =>
      simp only [hconn] at h
      cases h
    | ok conn =>
      cases hdata : fragmenter.getDataFrames.mapM encodeCan with
      | error e =>
        simp only [hconn, hdata] at h
        cases h
      | ok data =>
        simp only [hconn, hdata] at h
        cases h
        refine ⟨congrArg Except.ok ?_, List.cons_ne_nil _ _⟩
        rw [List.map_cons, id_encodeCan hconn, ids_mapM_encodeCan hdata]

/-- The CAN frames that stand for a frame on the bus. -/
def canFramesOf (frame : Frame) : Except J1939Exception (List CanFrame) :=
  if getDataLength frame > maxCanDataSize then encodeBam frame
  else do
    let canFrame ← encodeCan frame
    return [canFrame]

theorem sentIds_of_canFramesOf {frame : Frame} {canFrames : List CanFrame}
    (h : canFramesOf frame = .ok canFrames) :
    sentIds frame = .ok (canFrames.map CanFrame.id) ∧ canFrames ≠ [] := by
  unfold canFramesOf at h
  split_ifs at h with hlong
  · exact sentIds_of_encodeBam hlong h
  · cases hcan : encodeCan frame with
    | error e =>
      rw [hcan] at h
      cases h
    | ok canFrame =>
      rw [hcan] at h
      cases h
      refine ⟨?_, List.cons_ne_nil _ _⟩
      rw [sentIds, if_neg hlong, ← id_encodeCan hcan]
      rfl

/-- A frame that is to be sent just once. -/
def SentOnce (frame : Frame) (period : UInt32) : Prop :=
  getDataLength frame ≤ maxCanDataSize ∧ period = 0

instance (frame : Frame) (period : UInt32) : Decidable (SentOnce frame period) :=
  inferInstanceAs (Decidable (_ ∧ _))

/-- Sending a frame once or again and again. -/
theorem sendFrameThroughInterface_eq (sender : CommonCanSender) (frame : Frame) (period : UInt32) :
    sendFrameThroughInterface sender frame period = do
      let canFrames ← canFramesOf frame
      return if SentOnce frame period then (sender, canFrames)
        else (sender.sendFrames canFrames period, []) := by
  unfold sendFrameThroughInterface canFramesOf
  by_cases hlong : getDataLength frame > maxCanDataSize
  · have hnot : ¬SentOnce frame period := fun h => absurd hlong (not_lt.mpr h.1)
    rw [if_pos hlong, if_pos hlong]
    simp only [if_neg hnot]
  · rw [if_neg hlong, if_neg hlong]
    cases encodeCan frame with
    | error e => rfl
    | ok canFrame =>
      by_cases hperiod : period = 0
      · have honce : SentOnce frame period := ⟨not_lt.mp hlong, hperiod⟩
        simp only [if_pos hperiod, if_pos honce]
        rfl
      · have hnot : ¬SentOnce frame period := fun h => hperiod h.2
        simp only [if_neg hperiod, if_neg hnot]
        rfl

/-! ### Using the senders -/

section Senders

variable {f : CommonCanSender → Except J1939Exception (CommonCanSender × List CanFrame)}
variable {s s' : SenderState}

theorem onInterface_ok {interface : Token} (h : onInterface f interface s = .ok s') :
    ∃ sender result, s.senders.find? interface = some sender ∧ f sender = .ok result ∧
      s' = { s with
        senders := s.senders.insert interface result.1
        sentOnce := s.sentOnce ++ result.2.map fun canFrame => (interface, canFrame) } := by
  unfold onInterface at h
  split at h
  · cases h
  · next sender hsender =>
    cases hresult : f sender with
    | error e =>
      rw [hresult] at h
      cases h
    | ok result =>
      rw [hresult] at h
      cases h
      exact ⟨sender, result, hsender, hresult, rfl⟩

/-- What a sender sends at once. -/
def sentBy (f : CommonCanSender → Except J1939Exception (CommonCanSender × List CanFrame))
    (senders : SortedMap Token CommonCanSender) (interface : Token) : List (Token × CanFrame) :=
  match (senders.find? interface).map f with
  | some (.ok result) => result.2.map fun canFrame => (interface, canFrame)
  | _ => []

/-- Every sender is used once, with what it was before. -/
theorem onInterfaces_ok (h : onInterfaces f s = .ok s') :
    s.OnlySends s' ∧ s'.sentOnce = s.sentOnce ++ s.interfaces.flatMap (sentBy f s.senders) ∧
      ∀ interface sender, s.senders.find? interface = some sender →
        ∃ result, f sender = .ok result ∧ s'.senders.find? interface = some result.1 := by
  -- what holds when the interfaces of the rest are still to be used
  let Left (rest : List Token) (t : SenderState) : Prop :=
    rest.Nodup ∧ rest ⊆ s.interfaces ∧ t.sentOnce ++ rest.flatMap (sentBy f s.senders) =
        s.sentOnce ++ s.interfaces.flatMap (sentBy f s.senders) ∧
      ∀ interface sender, s.senders.find? interface = some sender →
        if interface ∈ rest then t.senders.find? interface = some sender
        else ∃ result, f sender = .ok result ∧ t.senders.find? interface = some result.1
  have hstep : ∀ interface rest t, Left (interface :: rest) t →
      (onInterface f interface t).Yields (Left rest) := by
    rintro interface rest t ⟨hnodup, hsubset, hsent, hleft⟩ t' ht'
    obtain ⟨sender, result, hsender, hresult, rfl⟩ := onInterface_ok ht'
    rw [List.nodup_cons] at hnodup
    have hold : s.senders.find? interface = some sender := by
      obtain ⟨old, hfind⟩ := Option.isSome_iff_exists.mp
        (SortedMap.isSome_find?_iff.mpr (hsubset List.mem_cons_self))
      have hsame := hleft interface old hfind
      rw [if_pos List.mem_cons_self, hsender] at hsame
      exact hfind.trans hsame.symm
    refine ⟨hnodup.2, fun i hi => hsubset (List.mem_cons_of_mem _ hi), ?_, ?_⟩
    · have hby : sentBy f s.senders interface = result.2.map fun c => (interface, c) := by
        rw [sentBy, hold, Option.map_some, hresult]
      rw [← hsent, List.flatMap_cons, hby, List.append_assoc]
    · intro other sender' hsender'
      have hbefore := hleft other sender' hsender'
      by_cases hother : other = interface
      · subst hother
        rw [hold] at hsender'
        cases hsender'
        rw [if_neg hnodup.1]
        exact ⟨result, hresult, by rw [SortedMap.find?_insert, if_pos rfl]⟩
      · have hfind : (t.senders.insert interface result.1).find? other = t.senders.find? other := by
          rw [SortedMap.find?_insert, if_neg hother]
        simp only [hfind]
        simpa [hother] using hbefore
  have hkeys : s.interfaces.Nodup :=
    (List.pairwise_map.mpr s.senders.sorted).imp fun hlt => hlt.ne
  have hall : Left s.interfaces s := by
    refine ⟨hkeys, List.Subset.refl _, rfl, fun interface sender hsender => ?_⟩
    have hmem : interface ∈ s.interfaces :=
      SortedMap.isSome_find?_iff.mp (Option.isSome_of_eq_some hsender)
    rw [if_pos hmem]
    exact hsender
  obtain ⟨-, -, hsent, hdone⟩ := yields_foldlM_rest hstep hall s' h
  refine ⟨onlySends_onInterfaces s f s' h, ?_, fun interface sender hsender => ?_⟩
  · rw [List.flatMap_nil, List.append_nil] at hsent
    exact hsent
  · have hresult := hdone interface sender hsender
    rwa [if_neg List.not_mem_nil] at hresult

end Senders

/-! ### Runs with passes -/

/-- The interpreter and the threads of the senders take turns. -/
inductive SenderEvent
  | line (line : Token)
  | pass (interface : Token) (now : Timespec)

/-- A pass of the thread of an interface. -/
def SenderState.pass (s : SenderState) (interface : Token) (now : Timespec) : SenderState :=
  match s.senders.find? interface with
  | none => s
  | some sender =>
    let passed : CommonCanSender := ⟨(CommonCanSender.passRings now sender.frameRings).1⟩
    { s with senders := s.senders.insert interface passed }

def performEvent (env : SenderEnv) (fuel : ℕ) (s : SenderState) :
    SenderEvent → Except Ending SenderState
  | .line line => parseLine env fuel s line
  | .pass interface now => .ok (s.pass interface now)

def performEvents (env : SenderEnv) (fuel : ℕ) (s : SenderState) (events : List SenderEvent) :
    Except Ending SenderState :=
  events.foldlM (performEvent env fuel) s

theorem performEvents_cons {env : SenderEnv} {fuel : ℕ} {s t : SenderState} {event : SenderEvent}
    (h : performEvent env fuel s event = .ok t) (events : List SenderEvent) :
    performEvents env fuel s (event :: events) = performEvents env fuel t events := by
  rw [performEvents, List.foldlM_cons, h]
  rfl

/-- What the steps and the passes keep holds after any lines and passes. -/
theorem yields_performEvents {env : SenderEnv} {I : SenderState → Prop}
    (hstep : ∀ s s', SenderStep env s s' → I s → I s')
    (hpass : ∀ s, I s → ∀ interface now, I (s.pass interface now)) {fuel : ℕ} {s : SenderState}
    (hs : I s) (events : List SenderEvent) : (performEvents env fuel s events).Yields I := by
  have hsteps : ∀ t t', SenderSteps env t t' → I t → I t' := by
    intro t t' h ht
    induction h with
    | refl => exact ht
    | tail _ hlast ih => exact hstep _ _ hlast ih
  refine (yields_foldlM (R := fun t t' => I t → I t') (fun _ ht => ht) (fun h h' ht => h' (h ht))
    (fun t event _ => ?_) s).mono fun _ h => h hs
  cases event with
  | line line => exact (steps_parseLine env t fuel line).mono fun t' => hsteps t t'
  | pass interface now => exact yields_ok fun ht => hpass t ht interface now

namespace SenderState

/-- Every sender has the property. -/
def Each (I : CommonCanSender → Prop) (s : SenderState) : Prop :=
  ∀ interface sender, s.senders.find? interface = some sender → I sender

variable {I : CommonCanSender → Prop} {s s' : SenderState}

theorem each_initial (h : I {}) (ifaces : List Token) : (SenderState.initial ifaces).Each I := by
  have hfold : ∀ senders : SortedMap Token CommonCanSender,
      (∀ interface sender, senders.find? interface = some sender → I sender) →
      ∀ interface sender,
        (ifaces.foldl (fun senders iface => senders.insert iface {}) senders).find? interface =
          some sender → I sender := by
    induction ifaces with
    | nil => exact fun senders hsenders => hsenders
    | cons iface ifaces ih =>
      intro senders hsenders
      refine ih _ fun interface sender hfind => ?_
      rw [SortedMap.find?_insert] at hfind
      split_ifs at hfind
      · cases hfind
        exact h
      · exact hsenders interface sender hfind
  exact hfold ∅ (by rintro _ _ ⟨⟩)

theorem Each.insert (hs : s.Each I) {interface : Token} {sender : CommonCanSender}
    (h : I sender) :
    Each I { s with senders := s.senders.insert interface sender } := by
  intro other sender' hfind
  rw [SortedMap.find?_insert] at hfind
  split_ifs at hfind
  · cases hfind
    exact h
  · exact hs other sender' hfind

theorem Each.onInterface (hs : s.Each I) {interface : Token}
    {f : CommonCanSender → Except J1939Exception (CommonCanSender × List CanFrame)}
    (hf : ∀ sender result, I sender → f sender = .ok result → I result.1)
    (h : onInterface f interface s = .ok s') : s'.Each I := by
  obtain ⟨sender, result, hsender, hresult, rfl⟩ := onInterface_ok h
  exact hs.insert (hf sender result (hs interface sender hsender) hresult)

/-- All senders are used, and what comes out may have another property. -/
theorem Each.onInterfaces {J : CommonCanSender → Prop} (hs : s.Each I)
    {f : CommonCanSender → Except J1939Exception (CommonCanSender × List CanFrame)}
    (hf : ∀ sender result, I sender → f sender = .ok result → J result.1)
    (h : onInterfaces f s = .ok s') : s'.Each J := by
  obtain ⟨honly, -, hall⟩ := onInterfaces_ok h
  intro interface sender' hsender'
  have hmem : interface ∈ s.interfaces := by
    rw [← honly.interfaces]
    exact SortedMap.isSome_find?_iff.mp (Option.isSome_of_eq_some hsender')
  obtain ⟨sender, hsender⟩ :=
    Option.isSome_iff_exists.mp (SortedMap.isSome_find?_iff.mpr hmem)
  obtain ⟨result, hresult, hfind⟩ := hall interface sender hsender
  rw [hsender'] at hfind
  cases hfind
  exact hf sender result (hs interface sender hsender) hresult

theorem Each.unsend (hs : s.Each I) (hunsend : ∀ sender ids, I sender → I (sender.unSendFrames ids))
    (ids : List UInt32) (chosen : Token → Bool) :
    Each I { s with
      senders := s.senders.setValues (s.senders.entries.map fun (iface, sender) =>
        if chosen iface then sender.unSendFrames ids else sender) } := by
  intro interface sender' hfind
  have hmem := SortedMap.mem_entries_iff.mpr hfind
  change _ ∈ SortedMap.setValuesIn _ _ at hmem
  rw [SortedMap.setValuesIn_map_entries] at hmem
  obtain ⟨⟨iface, sender⟩, he, heq⟩ := List.mem_map.mp hmem
  obtain ⟨-, rfl⟩ := Prod.mk.inj heq
  have hsender := hs iface sender (SortedMap.mem_entries_iff.mp he)
  dsimp only
  split_ifs
  · exact hunsend sender ids hsender
  · exact hsender

theorem Each.pass (hs : s.Each I)
    (hpass : ∀ (sender : CommonCanSender) now, I sender →
      I ⟨(CommonCanSender.passRings now sender.frameRings).1⟩) (interface : Token)
    (now : Timespec) : (s.pass interface now).Each I := by
  unfold SenderState.pass
  split
  · exact hs
  · next sender hsender => exact hs.insert (hpass sender now (hs interface sender hsender))

end SenderState

/-! ### Every interface carries a map -/

/-- The rings of the sender stand for some map. -/
def CommonCanSender.Mapped (sender : CommonCanSender) : Prop := ∃ m, sender.Carries m

namespace CommonCanSender

variable {sender : CommonCanSender}

theorem Mapped.sendFrames (h : sender.Mapped) (frames : List CanFrame) (period : UInt32) :
    (sender.sendFrames frames period).Mapped := by
  obtain ⟨m, hm⟩ := h
  by_cases hframes : frames = []
  · rw [CommonCanSender.sendFrames, if_pos hframes]
    exact ⟨m, hm⟩
  · exact ⟨_, hm.sendFrames hframes period⟩

theorem Mapped.sendFrameThroughInterface (h : sender.Mapped) {frame : Frame} {period : UInt32}
    {result : CommonCanSender × List CanFrame}
    (hsend : J1939.sendFrameThroughInterface sender frame period = .ok result) :
    result.1.Mapped := by
  rw [sendFrameThroughInterface_eq] at hsend
  cases hcan : canFramesOf frame with
  | error e =>
    rw [hcan] at hsend
    cases hsend
  | ok canFrames =>
    rw [hcan] at hsend
    cases hsend
    split_ifs
    · exact h
    · exact h.sendFrames canFrames period

theorem Mapped.sendTTS (h : sender.Mapped) {frames : List FMS1Frame} {period : UInt32}
    {result : CommonCanSender × List CanFrame}
    (hsend : J1939.sendTTS frames period sender = .ok result) : result.1.Mapped := by
  unfold J1939.sendTTS at hsend
  cases hcan : ttsFramesToCanFrames frames with
  | error e =>
    rw [hcan] at hsend
    cases hsend
  | ok canFrames =>
    rw [hcan] at hsend
    cases hsend
    exact h.sendFrames canFrames period

/-- `notifySender` on one sender: what is carried under the identifiers of the frame, if anything
is, becomes the frame as it is now. -/
theorem Carries.resend {m : CarriedFrames} (h : sender.Carries m) {frame : Frame} {period : UInt32}
    {result : CommonCanSender × List CanFrame} (hresend : resend frame period sender = .ok result) :
    ∃ ids, sentIds frame = .ok ids ∧
      (m ids = none ∧ result = (sender, []) ∨
        ∃ canFrames, m ids ≠ none ∧ canFramesOf frame = .ok canFrames ∧
          canFrames.map CanFrame.id = ids ∧
          (SentOnce frame period ∧ result = (sender, canFrames) ∨
            ¬SentOnce frame period ∧ result.2 = [] ∧
              result.1.Carries (Function.update m ids (some (canFrames, period))))) := by
  unfold J1939.resend isFrameSent at hresend
  cases hids : sentIds frame with
  | error e =>
    rw [hids] at hresend
    cases hresend
  | ok ids =>
    rw [hids] at hresend
    refine ⟨ids, rfl, ?_⟩
    change (if sender.isSent ids then _ else _) = _ at hresend
    split_ifs at hresend with hsent
    · rw [h.isSent_iff, Option.isSome_iff_ne_none] at hsent
      rw [sendFrameThroughInterface_eq] at hresend
      cases hcan : canFramesOf frame with
      | error e =>
        rw [hcan] at hresend
        cases hresend
      | ok canFrames =>
        rw [hcan] at hresend
        obtain ⟨hsame, hne⟩ := sentIds_of_canFramesOf hcan
        rw [hids] at hsame
        cases hsame
        refine .inr ⟨canFrames, hsent, rfl, rfl, ?_⟩
        cases hresend
        by_cases honce : SentOnce frame period
        · exact .inl ⟨honce, if_pos honce⟩
        · rw [if_neg honce]
          exact .inr ⟨honce, rfl, h.sendFrames hne period⟩
    · rw [h.isSent_iff, Option.not_isSome_iff_eq_none] at hsent
      cases hresend
      exact .inl ⟨hsent, rfl⟩

end CommonCanSender

open CommonCanSender in
/-- Every step keeps the senders' rings a map. -/
theorem SenderStep.mapped {env : SenderEnv} {s s' : SenderState} (h : SenderStep env s s')
    (hs : s.Each Mapped) : s'.Each Mapped := by
  cases h with
  | create | fill | framePeriod | ttsPeriod => exact hs
  | send h => exact hs.onInterface (fun _ _ hm hsend => hm.sendFrameThroughInterface hsend) h
  | notify h =>
    refine hs.onInterfaces (fun sender result hm hresend => ?_) h
    obtain ⟨m, hm⟩ := hm
    obtain ⟨ids, -, ⟨-, rfl⟩ | ⟨canFrames, -, -, -, ⟨-, rfl⟩ | ⟨-, -, hcarries⟩⟩⟩ := hm.resend hresend
    · exact ⟨m, hm⟩
    · exact ⟨m, hm⟩
    · exact ⟨_, hcarries⟩
  | unsend ids chosen =>
    exact hs.unsend (fun sender ids ⟨m, hm⟩ => ⟨_, hm.unSendFrames ids⟩) ids chosen
  | sendTTS h => exact hs.onInterface (fun _ _ hm hsend => hm.sendTTS hsend) h
  | setTTS number status h =>
    have hset : SenderState.Each Mapped
        { s with fms1Frames := (setFirstTTS number status s.fms1Frames).1 } := hs
    refine hset.onInterfaces (fun sender result hm hresend => ?_) h
    unfold resendTTS at hresend
    split_ifs at hresend
    · exact hm.sendTTS hresend
    · cases hresend
      exact hm

theorem mapped_pass {s : SenderState} (hs : s.Each CommonCanSender.Mapped) (interface : Token)
    (now : Timespec) : (s.pass interface now).Each CommonCanSender.Mapped :=
  hs.pass (fun _ now ⟨m, hm⟩ => ⟨m, hm.passRings now⟩) interface now

/-- After any lines and passes the rings of every interface stand for a map. -/
theorem mapped_of_events {env : SenderEnv} {fuel : ℕ} {ifaces : List Token}
    {events : List SenderEvent} {s : SenderState}
    (h : performEvents env fuel (.initial ifaces) events = .ok s) :
    s.Each CommonCanSender.Mapped :=
  yields_performEvents (fun _ _ hstep => hstep.mapped) (fun _ => mapped_pass)
    (SenderState.each_initial ⟨_, CommonCanSender.carries_new⟩ ifaces) events s h

/-! ### Setting a frame that is sent -/

section SetFrame

variable {env : SenderEnv} {s s' : SenderState} {name : Token} {arguments : List Token}

/-- A period that is there is only replaced. -/
theorem yields_period_setFrameParam (key value : Token) (set : SetFrame) :
    (setFrameParam env key value set).Yields fun set' =>
      set'.period = none → set.period = none := by
  unfold setFrameParam
  split_ifs
  · split
    · exact yields_pure id
    · exact yields_bind fun _ => yields_pure id
  · split
    · exact yields_pure id
    · exact yields_bind fun _ => yields_pure id
  · unfold parseSetGenericParams
    split_ifs
    · exact yields_bind fun _ => yields_pure id
    · refine yields_bind fun period => yields_pure ?_
      cases period with
      | none => exact id
      | some period => rintro ⟨⟩
    · exact yields_bind fun _ => yields_pure id
    · exact yields_bind fun _ => yields_pure id
    · exact yields_pure id

/-- What `set frame` stores before it notifies the senders. -/
theorem parseSetFrameCommand_ok (h : parseSetFrameCommand env s name arguments = .ok s') :
    s' = s ∧ s.framesToSend.find? name = none ∨
    ∃ frame, s'.framesToSend.find? name = some frame ∧
      (s'.framePeriods.find? name = none ∧ s'.senders = s.senders ∨
        ∃ period t, s'.framePeriods.find? name = some period ∧ t.senders = s.senders ∧
          notifySender frame period t = .ok s') := by
  unfold parseSetFrameCommand at h
  split at h
  · next hnone =>
    cases h
    exact .inl ⟨rfl, hnone⟩
  · next frame hframe =>
    refine .inr ?_
    have hkept := yields_processCommandParameters
      (P := fun set => set.period = none → s.framePeriods.find? name = none)
      (fun key value set hset => (@yields_period_setFrameParam env key value set).mono
        fun _ hperiod hnone => hset (hperiod hnone)) arguments
      (s := { frame := frame, period := s.framePeriods.find? name }) id
    have hfind : ∀ (frame' : Frame) (t : SenderState),
        t.framesToSend = s.framesToSend.insert name frame' →
          t.framesToSend.find? name = some frame' := by
      intro frame' t ht
      rw [ht, SortedMap.find?_insert, if_pos rfl]
    rcases hset : processCommandParameters (setFrameParam env) arguments
        { frame := frame, period := s.framePeriods.find? name } with e | ⟨frame', _ | period, spn⟩
    · rw [hset] at h
      cases h
    · rw [hset] at h
      cases h
      exact ⟨frame', hfind frame' _ rfl, .inl ⟨hkept _ hset rfl, rfl⟩⟩
    · rw [hset] at h
      have honly := onlySends_onInterfaces _ _ s' h
      change notifySender frame' period _ = _ at h
      refine ⟨frame', hfind frame' s' honly.framesToSend, .inr ⟨period, _, ?_, ?_, h⟩⟩
      · rw [honly.framePeriods]
        exact (SortedMap.find?_insert ..).trans (if_pos rfl)
      · rfl

end SetFrame

/-- What becomes of a sender when the frame of a name has been set: what was carried under the
identifiers of the frame becomes the frame as it is now with its period. A short frame of period 0
is sent once, and what was carried stays. -/
def Refreshed (s' : SenderState) (name : Token) (sender sender' : CommonCanSender) : Prop :=
  ∃ m, sender.Carries m ∧
    (sender' = sender ∧
        (s'.framesToSend.find? name = none ∨ s'.framePeriods.find? name = none) ∨
      ∃ frame period ids, s'.framesToSend.find? name = some frame ∧
        s'.framePeriods.find? name = some period ∧ sentIds frame = .ok ids ∧
        (sender' = sender ∧ (m ids = none ∨ SentOnce frame period) ∨
          ¬SentOnce frame period ∧ m ids ≠ none ∧ ∃ canFrames,
            canFramesOf frame = .ok canFrames ∧ canFrames.map CanFrame.id = ids ∧
              sender'.Carries (Function.update m ids (some (canFrames, period)))))

/-- A ring of the frame `DM1.new`. -/
def dm1Ring (txTimestamp : Timespec) (period : UInt32) : CanFrameRing where
  frames := [⟨16698110, [255, 255, 0, 0, 0, 0, 255, 255]⟩]
  txTimestamp := txTimestamp
  period := period

/-- One interface, and one name for a DM1 frame. -/
def dm1State (period : Option UInt32) (rings : List CanFrameRing) : SenderState :=
  { SenderState.initial ["can0".toList] with
    framesToSend := (∅ : SortedMap Token Frame).insert "a".toList (.dm1 DM1.new)
    framePeriods := period.elim ∅ ((∅ : SortedMap Token UInt32).insert "a".toList)
    senders := (∅ : SortedMap Token CommonCanSender).insert "can0".toList ⟨rings⟩ }

end J1939
