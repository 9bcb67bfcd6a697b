import Mathlib.Logic.Relation
import J1939.FilledFrames
import J1939.Lib.Outcomes

/-!
# What the names of the sender stand for

Every command is a sequence of a few steps. Whatever is typed, a name that has been given to a
frame keeps standing for the same message: only the header and the values of the frame change.
-/

namespace J1939

open Except Relation

/-! ### Rules for the pieces of commands -/

/-- What the parser of one parameter keeps, all of them keep. -/
theorem yields_processCommandParameters {σ : Type} {P : σ → Prop}
    {parserFunc : Token → Token → σ → Except Ending σ}
    (hstep : ∀ key value s, P s → (parserFunc key value s).Yields P) (arguments : List Token)
    {s : σ} (h : P s) : (processCommandParameters parserFunc arguments s).Yields P := by
  induction arguments using List.twoStepInduction generalizing s with
  | nil => exact yields_ok h
  | singleton => exact yields_ok h
  | cons_cons key value arguments ih _ =>
    rw [processCommandParameters]
    split_ifs
    · exact (hstep _ _ _ h).bind fun _ hs => ih hs
    · exact yields_ok h

/-- A masked number has no bits besides those of the mask. -/
theorem yields_stoulMasked (base : ℕ) (mask : UInt8) (value : Token) :
    (stoulMasked base mask value).Yields fun number => ∀ n ∈ number, n = n &&& mask := by
  refine yields_bind fun number => yields_pure ?_
  rintro n hn
  obtain ⟨m, -, hm⟩ := Option.bind_eq_some_iff.mp hn
  split_ifs at hm with hmask
  cases hm
  have hbyte := congrArg UInt32.toUInt8 hmask
  simpa using hbyte

/-! ### Steps -/

/-- What is done to the frames, their periods, the tell-tales and the senders. -/
inductive SenderStep (env : SenderEnv) : SenderState → SenderState → Prop
  | create {s : SenderState} {name : Token} {prototype : Frame} (hname : name ≠ [])
    (hfree : s.framesToSend.find? name = none) (hmem : prototype ∈ env.factory.frames.values) :
    SenderStep env s { s with framesToSend := s.framesToSend.insert name prototype }
  | fill {s : SenderState} {name : Token} {old frame : Frame}
    (hold : s.framesToSend.find? name = some old) (hfilled : old.FilledFrom frame) :
    SenderStep env s { s with framesToSend := s.framesToSend.insert name frame }
  | framePeriod {s : SenderState} {name : Token} (hname : (s.framesToSend.find? name).isSome)
    (period : UInt32) :
    SenderStep env s { s with framePeriods := s.framePeriods.insert name period }
  | send {s s' : SenderState} {interface : Token} {frame : Frame} {period : UInt32}
    (h : onInterface (fun sender => sendFrameThroughInterface sender frame period) interface s =
      .ok s') : SenderStep env s s'
  | notify {s s' : SenderState} {frame : Frame} {period : UInt32}
    (h : notifySender frame period s = .ok s') : SenderStep env s s'
  | unsend (s : SenderState) (ids : List UInt32) (chosen : Token → Bool) :
    SenderStep env s { s with
      senders := s.senders.setValues (s.senders.entries.map fun (iface, sender) =>
        if chosen iface then sender.unSendFrames ids else sender) }
  | ttsPeriod (s : SenderState) (period : UInt32) : SenderStep env s { s with ttsPeriod := period }
  | sendTTS {s s' : SenderState} {interface : Token}
    (h : onInterface (sendTTS s.fms1Frames s.ttsPeriod) interface s = .ok s') :
    SenderStep env s s'
  | setTTS {s s' : SenderState} (number status : UInt8)
    (h : onInterfaces (resendTTS (setFirstTTS number status s.fms1Frames).1 s.ttsPeriod)
      { s with fms1Frames := (setFirstTTS number status s.fms1Frames).1 } = .ok s') :
    SenderStep env s s'

/-- Any number of steps. -/
abbrev SenderSteps (env : SenderEnv) : SenderState → SenderState → Prop :=
  ReflTransGen (SenderStep env)

/-- A tell-tale that no frame has changes none. -/
theorem setFirstTTS_of_not_set {number status : UInt8} {frames : List FMS1Frame}
    (h : (setFirstTTS number status frames).2 = false) :
    (setFirstTTS number status frames).1 = frames := by
  induction frames with
  | nil => rfl
  | cons frame frames ih =>
    rw [setFirstTTS] at h ⊢
    split_ifs at h ⊢
    exact congrArg (frame :: ·) (ih h)

section Commands

variable (env : SenderEnv) (s : SenderState)

/-- An SPN of a frame gets a value. -/
theorem filledFrom_setFrameValue (frame : Frame) (number : UInt32) (value : Token) :
    (setFrameValue env frame number value).Yields frame.FilledFrom := by
  unfold setFrameValue
  split
  · exact yields_error
  · refine yields_bind fun valueNumber => ?_
    split
    · exact yields_pure (.refl frame)
    · exact yields_pure (.mapGeneric frame fun g => .setNumericValue g number _)
  · refine yields_bind fun status => ?_
    split
    · exact yields_pure (.refl frame)
    · exact yields_pure (.mapGeneric frame fun g => .setStatusValue g number _)
  · exact yields_pure (.mapGeneric frame fun g => .setStringValue g number _)

/-- One parameter of `set frame`. -/
theorem filledFrom_setFrameParam (key value : Token) (set : SetFrame) :
    (setFrameParam env key value set).Yields fun set' => set.frame.FilledFrom set'.frame := by
  have hrefl := Frame.FilledFrom.refl set.frame
  unfold setFrameParam
  split_ifs
  · split
    · exact yields_pure hrefl
    · exact yields_bind fun _ => yields_pure hrefl
  · split
    · exact yields_pure hrefl
    · next number _ =>
      exact (filledFrom_setFrameValue env set.frame number value).bind fun _ h => yields_pure h
  · unfold parseSetGenericParams
    split_ifs
    · refine (yields_stoulMasked 10 priorityMask value).bind fun priority hpriority => ?_
      cases priority with
      | none => exact yields_pure hrefl
      | some n => exact yields_pure (.setPriority set.frame (hpriority n rfl))
    · exact yields_bind fun _ => yields_pure hrefl
    · refine yields_bind fun src => ?_
      cases src with
      | none => exact yields_pure hrefl
      | some n => exact yields_pure (.setSrcAddr set.frame n)
    · refine yields_bind fun dest => ?_
      cases dest with
      | none => exact yields_pure hrefl
      | some n => exact yields_pure (.setDstAddr set.frame n)
    · exact yields_pure hrefl
theorem steps_parseSetFrameCommand (name : Token) (arguments : List Token) :
    (parseSetFrameCommand env s name arguments).Yields (SenderSteps env s) := by
  unfold parseSetFrameCommand
  split
  · exact yields_pure .refl
  · next frame hframe =>
    have hparams := yields_processCommandParameters (P := fun set => frame.FilledFrom set.frame)
      (fun key value set hset => (filledFrom_setFrameParam env key value set).mono
        fun _ => hset.trans) arguments (s := { frame := frame, period := s.framePeriods.find? name })
      (.refl frame)
    refine hparams.bind fun set hset => ?_
    have hfill : SenderSteps env s _ := .single (.fill hframe hset)
    cases set.period with
    | none => exact yields_pure hfill
    | some period =>
      have hname : ((s.framesToSend.insert name set.frame).find? name).isSome := by
        rw [SortedMap.find?_insert, if_pos rfl]
        rfl
      intro s' hnotify
      exact (hfill.tail (.framePeriod hname period)).tail (.notify hnotify)

/-- What the factory gives is one of its prototypes. -/
theorem mem_values_of_getFrame {factory : J1939Factory} {frame : Frame} :
    (∃ pgn, factory.getFrameByPgn pgn = some frame) ∨
      (∃ title, factory.getFrameByName title = some frame) →
    frame ∈ factory.frames.values := by
  rintro (⟨pgn, hpgn⟩ | ⟨title, htitle⟩)
  · exact List.mem_map_of_mem (SortedMap.mem_entries_iff.mpr hpgn)
  · exact List.mem_of_find?_eq_some htitle

/-- A new name is given to a prototype. -/
theorem steps_parseCreateFrameCommand (arguments : List Token) :
    (parseCreateFrameCommand env s arguments).Yields (SenderSteps env s) := by
  unfold parseCreateFrameCommand
  refine yields_bind fun ⟨name, pgn, title⟩ => ?_
  dsimp only
  split_ifs with hname _ hused hpgn
  · exact yields_pure .refl
  · exact yields_pure .refl
  · exact yields_pure .refl
  all_goals
    refine Yields.bind (P := fun frameToAdd => ∀ frame ∈ frameToAdd,
      frame ∈ env.factory.frames.values) ?_ fun frameToAdd hframeToAdd => ?_
  case pos.refine_2 | neg.refine_2 =>
    cases frameToAdd with
    | none => exact yields_pure .refl
    | some frame =>
      have hfree : s.framesToSend.find? name = none := by
        rwa [Option.not_isSome_iff_eq_none] at hused
      exact yields_pure (.single (.create hname hfree (hframeToAdd frame rfl)))
  · cases stoul32 16 pgn with
    | error e => exact yields_error
    | ok number =>
      refine yields_ok fun frame hframe => ?_
      obtain ⟨n, -, hn⟩ := Option.bind_eq_some_iff.mp hframe
      exact mem_values_of_getFrame (.inl ⟨n, hn⟩)
  · exact yields_pure fun frame hframe => mem_values_of_getFrame (.inr ⟨_, hframe⟩)

theorem steps_parseSendFrameCommand (name : Token) (arguments : List Token) :
    (parseSendFrameCommand s name arguments).Yields (SenderSteps env s) := by
  unfold parseSendFrameCommand
  split
  · exact yields_pure .refl
  · refine yields_bind fun interface => ?_
    dsimp only
    split_ifs
    · exact yields_pure .refl
    · exact fun s' hsend => .single (.send hsend)

theorem steps_parseUnsendFrameCommand (name : Token) (arguments : List Token) :
    (parseUnsendFrameCommand s name arguments).Yields (SenderSteps env s) := by
  unfold parseUnsendFrameCommand
  split
  · exact yields_pure .refl
  · refine yields_bind fun interface => yields_bind fun ids => yields_pure (.single ?_)
    have hunsend : SenderStep env s _ := .unsend s ids
      fun iface => decide (interface = [] ∨ interface = iface)
    simpa only [decide_eq_true_eq] using hunsend

theorem steps_parseSendAddrCommand (arguments : List Token) :
    (parseSendAddrCommand s arguments).Yields (SenderSteps env s) := by
  unfold parseSendAddrCommand
  refine yields_bind fun ⟨addr, id, interface⟩ => ?_
  dsimp only
  split_ifs
  · exact yields_pure .refl
  · exact yields_pure .refl
  · exact fun s' hsend => .single (.send hsend)

theorem steps_parseSendTTSCommand (arguments : List Token) :
    (parseSendTTSCommand s arguments).Yields (SenderSteps env s) := by
  unfold parseSendTTSCommand
  refine yields_bind fun ⟨interface, ttsPeriod⟩ => ?_
  cases ttsPeriod with
  | none => exact yields_pure .refl
  | some period =>
    have hperiod : SenderSteps env s { s with ttsPeriod := period } := .single (.ttsPeriod s period)
    dsimp only
    split_ifs
    · exact yields_pure hperiod
    · exact fun s' hsend => hperiod.tail (.sendTTS hsend)

theorem steps_parseSetTTSCommand (arguments : List Token) :
    (parseSetTTSCommand s arguments).Yields (SenderSteps env s) := by
  unfold parseSetTTSCommand
  refine yields_bind fun ⟨number, status⟩ => ?_
  dsimp only
  split_ifs with _ hset
  · exact fun s' hresend => .single (.setTTS number status hresend)
  · rw [Bool.not_eq_true] at hset
    rw [setFirstTTS_of_not_set hset]
    exact yields_pure .refl
  · exact yields_pure .refl

theorem steps_parseListTTSCommand (arguments : List Token) :
    (parseListTTSCommand s arguments).Yields (SenderSteps env s) := by
  unfold parseListTTSCommand
  split_ifs
  · exact yields_bind fun _ => yields_pure .refl
  · exact yields_bind fun _ => yields_pure .refl

theorem steps_parseGetCommand (arguments : List Token) :
    (parseGetCommand env s arguments).Yields (SenderSteps env s) := by
  unfold parseGetCommand
  refine yields_bind fun pgn => ?_
  split_ifs
  all_goals
    refine yields_bind fun pgnNumber => ?_
    dsimp only
    split
    · exact yields_pure .refl
    · split_ifs
      · exact yields_error
      · exact yields_pure .refl

/-- Changing trouble codes. -/
theorem steps_onDM1 (name : Token) {change : DM1 → Except Ending DM1}
    (hchange : ∀ f, (change f).Yields fun f' => (Frame.dm1 f).FilledFrom (.dm1 f')) :
    (onDM1 s name change).Yields (SenderSteps env s) := by
  unfold onDM1
  split
  · exact yields_pure .refl
  · next frame hframe =>
    split_ifs
    · exact yields_pure .refl
    · cases frame with
      | dm1 f => exact (hchange f).bind fun f' hf' => yields_pure (.single (.fill hframe hf'))
      | _ => exact yields_error

theorem steps_parseAddDtcCommand (name : Token) (arguments : List Token) :
    (parseAddDtcCommand s name arguments).Yields (SenderSteps env s) := by
  refine steps_onDM1 env s name fun f => yields_bind fun dtc => ?_
  cases dtc with
  | none => exact yields_pure (.refl _)
  | some dtc => exact yields_pure (.setDtcs f _)

/-- Whatever the position, only the trouble codes are changed. -/
theorem filledFrom_setDTC (f : DM1) (pos : ℕ) (dtc : DTC) :
    (Frame.dm1 f).FilledFrom (.dm1 (f.setDTC pos dtc).1) := by
  rw [DM1.setDTC]
  split_ifs
  · exact .refl _
  · exact .setDtcs f _

theorem filledFrom_deleteDTC (f : DM1) (pos : ℕ) :
    (Frame.dm1 f).FilledFrom (.dm1 (f.deleteDTC pos).1) := by
  rw [DM1.deleteDTC]
  split_ifs
  · exact .refl _
  · exact .setDtcs f _
theorem steps_parseSetDtcCommand (name : Token) (arguments : List Token) :
    (parseSetDtcCommand s name arguments).Yields (SenderSteps env s) := by
  refine steps_onDM1 env s name fun f => yields_bind fun ⟨pos, _⟩ => yields_bind fun dtc => ?_
  cases dtc with
  | none => exact yields_pure (.refl _)
  | some dtc =>
    cases pos with
    | none => exact yields_error
    | some pos => exact yields_pure (filledFrom_setDTC f pos dtc)

theorem steps_parseDeleteDtcCommand (name : Token) (arguments : List Token) :
    (parseDeleteDtcCommand s name arguments).Yields (SenderSteps env s) := by
  refine steps_onDM1 env s name fun f => yields_bind fun ⟨pos, _⟩ => ?_
  cases pos with
  | none => exact yields_error
  | some pos => exact yields_pure (filledFrom_deleteDTC f pos)

theorem steps_callCmdFunc (func : CmdFunc) :
    (callCmdFunc s func).Yields (SenderSteps env s) := by
  cases func with
  | parseQuitCommand => exact yields_error
  | parseListFramesCommand => exact yields_bind fun _ => yields_pure .refl
  | parseListCommandsCommand => exact yields_pure .refl
  | parseListInterfacesCommand => exact yields_pure .refl
  | parseUnsendTTSCommand =>
    have hunsend : SenderStep env s _ := .unsend s (ttsIds s.fms1Frames) fun _ => true
    refine yields_pure (.single ?_)
    rw [parseUnsendTTSCommand, SortedMap.values, List.map_map]
    exact hunsend

theorem steps_callCmdFuncWithArgs (func : CmdFuncWithArgs) (arguments : List Token) :
    (callCmdFuncWithArgs env s func arguments).Yields (SenderSteps env s) := by
  cases func with
  | parseCreateFrameCommand => exact steps_parseCreateFrameCommand env s arguments
  | parseListTTSCommand => exact steps_parseListTTSCommand env s arguments
  | parsePrintFrameCommand => exact yields_pure .refl
  | parseSetFrameCommand => exact steps_parseSetFrameCommand env s _ _
  | parseSetTTSCommand => exact steps_parseSetTTSCommand env s arguments
  | parseSetDtcCommand => exact steps_parseSetDtcCommand env s _ _
  | parseSendFrameCommand => exact steps_parseSendFrameCommand env s _ _
  | parseSendTTSCommand => exact steps_parseSendTTSCommand env s arguments
  | parseSendAddrCommand => exact steps_parseSendAddrCommand env s arguments
  | parseExecCommand => exact yields_pure .refl
  | parseUnsendFrameCommand => exact steps_parseUnsendFrameCommand env s _ _
  | parseAddDtcCommand => exact steps_parseAddDtcCommand env s _ _
  | parseDeleteDtcCommand => exact steps_parseDeleteDtcCommand env s _ _
  | parseGetCommand => exact steps_parseGetCommand env s arguments

/-- By induction on the scripts that may still be opened. -/
theorem steps_parseLine (fuel : ℕ) (line : Token) :
    (parseLine env fuel s line).Yields (SenderSteps env s) := by
  induction fuel using Nat.strong_induction_on generalizing s line with
  | _ fuel ih =>
    unfold parseLine
    split
    · exact yields_pure .refl
    · exact yields_pure .refl
    · exact yields_pure .refl
    · exact steps_callCmdFunc env s _
    · split
      · exact yields_pure .refl
      · exact yields_error
      · next fuel' _ =>
        exact yields_foldlM (fun _ => .refl) .trans
          (fun s line _ => ih fuel' (Nat.lt_succ_self _) s line) s
    · exact steps_callCmdFuncWithArgs env s _ _

theorem steps_parseLines (fuel : ℕ) (lines : List Token) :
    (parseLines env fuel s lines).Yields (SenderSteps env s) :=
  yields_foldlM (fun _ => .refl) .trans (fun s line _ => steps_parseLine env s fuel line) s

end Commands

/-! ### Names -/

namespace SenderState

/-- Every name stands for a filled prototype, and only names in use have a period. -/
structure Consistent (env : SenderEnv) (s : SenderState) : Prop where
  origin : ∀ name frame, s.framesToSend.find? name = some frame →
    ∃ prototype ∈ env.factory.frames.values, prototype.FilledFrom frame
  named : s.framesToSend.find? [] = none
  periods : ∀ name, (s.framePeriods.find? name).isSome → (s.framesToSend.find? name).isSome

/-- What commands never undo: a name that is in use. -/
structure Evolves (s s' : SenderState) : Prop where
  interfaces : s'.interfaces = s.interfaces
  frames : ∀ name frame, s.framesToSend.find? name = some frame →
    ∃ frame', s'.framesToSend.find? name = some frame' ∧ frame.FilledFrom frame'

/-- What every command does to a consistent state. -/
def Preserves (env : SenderEnv) (s s' : SenderState) : Prop :=
  s.Consistent env → s'.Consistent env ∧ s.Evolves s'

/-- Only the senders are used. -/
structure OnlySends (s s' : SenderState) : Prop where
  framesToSend : s'.framesToSend = s.framesToSend
  framePeriods : s'.framePeriods = s.framePeriods
  fms1Frames : s'.fms1Frames = s.fms1Frames
  ttsPeriod : s'.ttsPeriod = s.ttsPeriod
  interfaces : s'.interfaces = s.interfaces

variable {env : SenderEnv} {s s' s'' : SenderState}

theorem OnlySends.refl (s : SenderState) : s.OnlySends s := ⟨rfl, rfl, rfl, rfl, rfl⟩

theorem OnlySends.trans (h : s.OnlySends s') (h' : s'.OnlySends s'') : s.OnlySends s'' where
  framesToSend := h'.framesToSend.trans h.framesToSend
  framePeriods := h'.framePeriods.trans h.framePeriods
  fms1Frames := h'.fms1Frames.trans h.fms1Frames
  ttsPeriod := h'.ttsPeriod.trans h.ttsPeriod
  interfaces := h'.interfaces.trans h.interfaces

theorem Evolves.refl (s : SenderState) : s.Evolves s :=
  ⟨rfl, fun _ frame hframe => ⟨frame, hframe, .refl frame⟩⟩

theorem Evolves.trans (h : s.Evolves s') (h' : s'.Evolves s'') : s.Evolves s'' := by
  refine ⟨h'.interfaces.trans h.interfaces, fun name frame hframe => ?_⟩
  obtain ⟨frame', hframe', hfilled⟩ := h.frames name frame hframe
  obtain ⟨frame'', hframe'', hfilled'⟩ := h'.frames name frame' hframe'
  exact ⟨frame'', hframe'', hfilled.trans hfilled'⟩

theorem Preserves.refl (s : SenderState) : Preserves env s s := fun h => ⟨h, .refl s⟩

theorem Preserves.trans (h : Preserves env s s') (h' : Preserves env s' s'') :
    Preserves env s s'' := by
  intro hs
  obtain ⟨hs', hevolves⟩ := h hs
  obtain ⟨hs'', hevolves'⟩ := h' hs'
  exact ⟨hs'', hevolves.trans hevolves'⟩

/-- A command that leaves the frames and their periods alone. -/
theorem Preserves.of_frames (hframes : s'.framesToSend = s.framesToSend)
    (hperiods : s'.framePeriods = s.framePeriods) (hinterfaces : s'.interfaces = s.interfaces) :
    Preserves env s s' := by
  intro h
  refine ⟨⟨?_, ?_, ?_⟩, hinterfaces, ?_⟩
  · rw [hframes]
    exact h.origin
  · rw [hframes]
    exact h.named
  · rw [hframes, hperiods]
    exact h.periods
  · intro name frame hframe
    rw [hframes]
    exact ⟨frame, hframe, .refl frame⟩

theorem OnlySends.preserves (h : s.OnlySends s') : Preserves env s s' :=
  .of_frames h.framesToSend h.framePeriods h.interfaces

/-- A name gets another frame: either it was free, or it keeps its message. -/
theorem Preserves.insert {name : Token} {frame : Frame} (hname : name ≠ [])
    (horigin : s.Consistent env →
      ∃ prototype ∈ env.factory.frames.values, prototype.FilledFrom frame)
    (hframe : ∀ old, s.framesToSend.find? name = some old → old.FilledFrom frame) :
    Preserves env s { s with framesToSend := s.framesToSend.insert name frame } := by
  intro h
  refine ⟨⟨fun other f hf => ?_, ?_, fun other hperiod => ?_⟩, rfl, fun other f hf => ?_⟩
  · rw [SortedMap.find?_insert] at hf
    split_ifs at hf
    · cases hf
      exact horigin h
    · exact h.origin other f hf
  · rw [SortedMap.find?_insert, if_neg hname.symm]
    exact h.named
  · rw [SortedMap.find?_insert]
    split_ifs
    · rfl
    · exact h.periods other hperiod
  · rw [SortedMap.find?_insert]
    split_ifs with hother
    · exact ⟨frame, rfl, hframe f (hother ▸ hf)⟩
    · exact ⟨f, hf, .refl f⟩

/-- A name in use gets a period. -/
theorem Preserves.insertPeriod {name : Token} {period : UInt32}
    (hname : (s.framesToSend.find? name).isSome) :
    Preserves env s { s with framePeriods := s.framePeriods.insert name period } := by
  intro h
  refine ⟨⟨h.origin, h.named, fun other hperiod => ?_⟩, rfl,
    fun _ f hf => ⟨f, hf, .refl f⟩⟩
  rw [SortedMap.find?_insert] at hperiod
  split_ifs at hperiod with hother
  · exact hother ▸ hname
  · exact h.periods other hperiod

/-- The frame of a name in use is changed. -/
theorem Preserves.update {name : Token} {old frame : Frame}
    (hold : s.framesToSend.find? name = some old) (hframe : old.FilledFrom frame) :
    Preserves env s { s with framesToSend := s.framesToSend.insert name frame } := by
  intro h
  have hname : name ≠ [] := by
    rintro rfl
    rw [h.named] at hold
    cases hold
  refine Preserves.insert hname (fun hs => ?_) (fun other hother => ?_) h
  · obtain ⟨prototype, hmem, hfilled⟩ := hs.origin name old hold
    exact ⟨prototype, hmem, hfilled.trans hframe⟩
  · rw [hold] at hother
    cases hother
    exact hframe

end SenderState

section Sending

variable (s : SenderState)

/-- Sending goes through a sender that exists, and changes nothing else. -/
theorem onlySends_onInterface
    (f : CommonCanSender → Except J1939Exception (CommonCanSender × List CanFrame))
    (interface : Token) : (onInterface f interface s).Yields s.OnlySends := by
  unfold onInterface
  split
  · exact yields_error
  · next sender hfind =>
    refine yields_bind fun sent => yields_pure ⟨rfl, rfl, rfl, rfl, ?_⟩
    change (s.senders.insert interface sent.1).entries.map Prod.fst = s.senders.entries.map Prod.fst
    rw [SortedMap.entries_insert_of_find? hfind, List.map_map]
    apply List.map_congr_left
    intro e _
    by_cases hk : e.1 = interface <;> simp [hk]

theorem onlySends_onInterfaces
    (f : CommonCanSender → Except J1939Exception (CommonCanSender × List CanFrame)) :
    (onInterfaces f s).Yields s.OnlySends :=
  yields_foldlM .refl .trans (fun s interface _ => onlySends_onInterface s f interface) s

end Sending

open SenderState in
/-- Steps keep what the names stand for. -/
theorem SenderStep.preserves {env : SenderEnv} {s s' : SenderState} (h : SenderStep env s s') :
    Preserves env s s' := by
  cases h with
  | create hname hfree hmem =>
    refine .insert hname (fun _ => ⟨_, hmem, .refl _⟩) fun old hold => ?_
    rw [hfree] at hold
    cases hold
  | fill hold hfilled => exact .update hold hfilled
  | framePeriod hname period => exact .insertPeriod hname
  | send h => exact (onlySends_onInterface s _ _ s' h).preserves
  | notify h => exact (onlySends_onInterfaces s _ s' h).preserves
  | unsend ids chosen => exact .of_frames rfl rfl (SortedMap.map_fst_setValuesIn _ _)
  | ttsPeriod period => exact .of_frames rfl rfl rfl
  | sendTTS h => exact (onlySends_onInterface s _ _ s' h).preserves
  | setTTS number status h =>
    have hset : Preserves env s
        { s with fms1Frames := (setFirstTTS number status s.fms1Frames).1 } :=
      .of_frames rfl rfl rfl
    exact hset.trans (onlySends_onInterfaces _ _ s' h).preserves

theorem SenderSteps.preserves {env : SenderEnv} {s s' : SenderState} (h : SenderSteps env s s') :
    SenderState.Preserves env s s' := by
  induction h with
  | refl => exact .refl s
  | tail _ hstep ih => exact ih.trans hstep.preserves

theorem SenderState.consistent_initial (env : SenderEnv) (ifaces : List Token) :
    (SenderState.initial ifaces).Consistent env :=
  ⟨by rintro name frame ⟨⟩, rfl, by rintro name ⟨⟩⟩

/-- The frames that the factory registers itself, and no scripts. -/
def predefinedEnv : SenderEnv where
  factory := .new
  stod _ := .error .invalidArgument
  script _ := none

end J1939