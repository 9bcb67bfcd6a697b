import J1939.SenderRuns

/-!
# Undefined accesses of the sender

Four commands access what need not be there: the position of a trouble code, the sender of an
interface, or the SPNs of a frame without any. A run of the interpreter is undefined exactly when
it comes to such a command with the wrong arguments.
-/

namespace J1939

open Except

/-! ### Commands with wrong arguments -/

/-- The position is missing or is not a number. -/
def NoPosition : List Token → Prop
  | [] => True
  | posStr :: _ => Conversion.stoul 10 posStr = .error .invalidArgument

/-- The name stands for a frame with the PGN of a DM1 frame. -/
def NamesDM1 (s : SenderState) (name : Token) : Prop :=
  ∃ frame, s.framesToSend.find? name = some frame ∧ getPGN frame = dm1Pgn

/-- The arguments of `set dtc` behind a name: the position is used when there is a trouble code. -/
def BadSetDtc (arguments : List Token) : Prop :=
  arguments = [] ∨ NoPosition arguments ∧ ∃ dtc, parseDtcCommand arguments.tail = .ok (some dtc)

/-- The arguments of `send addr` are complete but for an interface that is initialized. -/
def BadSendAddr (s : SenderState) (arguments : List Token) : Prop :=
  ∃ addr id interface,
    processCommandParameters sendAddrParam arguments (0, 0, []) = .ok (addr, id, interface) ∧
      id ≠ 0 ∧ addr ≠ 0 ∧ interface ≠ [] ∧ interface ∉ s.interfaces

/-- The arguments of `get` name a frame without SPNs. -/
def BadGet (env : SenderEnv) (arguments : List Token) : Prop :=
  ∃ pgn n frame, processCommandParameters getParam arguments [] = .ok pgn ∧ pgn ≠ [] ∧
    stoul32 0 pgn = .ok (some n) ∧ env.factory.getFrameByPgn n = some frame ∧
      frame.asGeneric = none

/-- What is undefined about a line, before it is called. -/
def Faulty (env : SenderEnv) (s : SenderState) : ParsedLine → Prop
  | .callWithArgs .parseSetDtcCommand arguments =>
    NamesDM1 s (arguments.headD []) ∧ BadSetDtc arguments.tail
  | .callWithArgs .parseDeleteDtcCommand arguments =>
    NamesDM1 s (arguments.headD []) ∧ NoPosition arguments.tail
  | .callWithArgs .parseSendAddrCommand arguments => BadSendAddr s arguments
  | .callWithArgs .parseGetCommand arguments => BadGet env arguments
  | _ => False

/-! ### What is never undefined -/

theorem avoids_caught {α : Type} (x : Except ConversionError α) :
    (caught x).Avoids .undefined := by
  rcases x with (_ | _) | a
  · exact avoids_ok
  · exact avoids_error (by rintro ⟨⟩)
  · exact avoids_ok

theorem avoids_stoul32 (base : ℕ) (value : Token) : (stoul32 base value).Avoids .undefined :=
  avoids_bind (avoids_caught _) fun _ => avoids_pure

theorem avoids_stoulMasked (base : ℕ) (mask : UInt8) (value : Token) :
    (stoulMasked base mask value).Avoids .undefined :=
  avoids_bind (avoids_stoul32 _ _) fun _ => avoids_pure

theorem avoids_escape {α : Type} (x : Except J1939Exception α) :
    (escape x).Avoids .undefined := by
  cases x with
  | error e => exact avoids_error (by rintro ⟨⟩)
  | ok a => exact avoids_ok

/-- Parameters are read without an undefined access if each one is, in the states they lead to. -/
theorem avoids_processCommandParameters {σ : Type} {P : σ → Prop}
    {parserFunc : Token → Token → σ → Except Ending σ}
    (hstep : ∀ key value s, P s → (parserFunc key value s).Avoids .undefined)
    (hkeep : ∀ key value s, P s → (parserFunc key value s).Yields P) (arguments : List Token)
    {s : σ} (h : P s) : (processCommandParameters parserFunc arguments s).Avoids .undefined := by
  induction arguments using List.twoStepInduction generalizing s with
  | nil => exact avoids_ok
  | singleton => exact avoids_ok
  | cons_cons key value arguments ih _ =>
    rw [processCommandParameters]
    split_ifs
    · exact (hstep _ _ _ h).bind (hkeep _ _ _ h) fun _ hs => ih hs
    · exact avoids_ok

theorem avoids_parameters {σ : Type} {parserFunc : Token → Token → σ → Except Ending σ}
    (hstep : ∀ key value s, (parserFunc key value s).Avoids .undefined) (arguments : List Token)
    (s : σ) : (processCommandParameters parserFunc arguments s).Avoids .undefined :=
  avoids_processCommandParameters (P := fun _ => True) (fun key value s _ => hstep key value s)
    (fun _ _ _ _ _ _ => trivial) arguments trivial

section Interfaces

variable (f : CommonCanSender → Except J1939Exception (CommonCanSender × List CanFrame))
variable {s : SenderState} {interface : Token}

theorem mem_interfaces_iff : interface ∈ s.interfaces ↔ (s.senders.find? interface).isSome :=
  SortedMap.isSome_find?_iff.symm

/-- Only an interface that is not initialized has no sender. -/
theorem onInterface_eq_undefined_iff :
    onInterface f interface s = .error .undefined ↔ interface ∉ s.interfaces := by
  rw [mem_interfaces_iff, onInterface]
  split
  · next hnone => simp [hnone]
  · next sender hsome =>
    rw [hsome]
    refine iff_of_false ?_ (by simp)
    exact avoids_bind (avoids_escape _) fun _ => avoids_pure

theorem avoids_onInterface (h : interface ∈ s.interfaces) :
    (onInterface f interface s).Avoids .undefined :=
  fun herror => (onInterface_eq_undefined_iff f).mp herror h

/-- The initialized interfaces stay those that are gone through. -/
theorem avoids_onInterfaces (s : SenderState) : (onInterfaces f s).Avoids .undefined := by
  refine avoids_foldlM (I := fun s' => s'.interfaces = s.interfaces)
    (fun s' hs' interface hmem => avoids_onInterface f (hs' ▸ hmem)) (fun s' interface hs' => ?_) rfl
  exact (onlySends_onInterface s' f interface).mono fun _ h => h.interfaces.trans hs'

end Interfaces

/-! ### Setting frames -/

theorem SameSpns.isSome_find? {f g : GenericFrame} (h : SameSpns f g) (number : UInt32) :
    (g.spns.find? number).isSome = (f.spns.find? number).isSome := by
  have hkeys : g.spns.entries.map Prod.fst = f.spns.entries.map Prod.fst := by
    have htypes := congrArg (List.map Prod.fst) h.types
    rwa [List.map_map, List.map_map] at htypes
  rw [Bool.eq_iff_iff, SortedMap.isSome_find?_iff, SortedMap.isSome_find?_iff, hkeys]

/-- The SPN of a frame with a number. -/
def Frame.findSPN (frame : Frame) (number : UInt32) : Option SPN :=
  frame.asGeneric.bind fun f => f.spns.find? number

/-- Frames with the same message have SPNs of the same numbers. -/
theorem Frame.SameMessage.isSome_findSPN {f g : Frame} (h : f.SameMessage g) (number : UInt32) :
    (g.findSPN number).isSome = (f.findSPN number).isSome := by
  cases h with
  | generic _ _ hspns => exact hspns.isSome_find? number
  | dm1 _ _ hspns => exact hspns.isSome_find? number
  | other hnone header =>
    have hother : (J1939.withHeader f header).asGeneric = none := by
      cases f <;> cases hnone <;> rfl
    rw [findSPN, findSPN, hnone, hother]

/-- The SPN that is set is one of the frame. -/
def SetFrame.SpnFound (set : SetFrame) : Prop :=
  ∀ number ∈ set.spn, (set.frame.findSPN number).isSome

theorem avoids_setFrameValue (env : SenderEnv) {frame : Frame} {number : UInt32}
    (h : (frame.findSPN number).isSome) (value : Token) :
    (setFrameValue env frame number value).Avoids .undefined := by
  unfold setFrameValue
  split
  · next hnone =>
    rw [Frame.findSPN, hnone] at h
    cases h
  · refine avoids_bind (avoids_caught _) fun valueNumber => ?_
    cases valueNumber.join <;> exact avoids_pure
  · refine avoids_bind (avoids_stoulMasked _ _ _) fun status => ?_
    cases status <;> exact avoids_pure
  · exact avoids_pure

theorem avoids_setFrameParam (env : SenderEnv) (key value : Token) {set : SetFrame}
    (h : set.SpnFound) : (setFrameParam env key value set).Avoids .undefined := by
  unfold setFrameParam
  split_ifs
  · split
    · exact avoids_pure
    · exact avoids_bind (avoids_bind (avoids_stoul32 _ _) fun _ => avoids_pure)
        fun _ => avoids_pure
  · split
    · exact avoids_pure
    · next number hspn =>
      exact avoids_bind (avoids_setFrameValue env (h number hspn) value) fun _ => avoids_pure
  · unfold parseSetGenericParams
    split_ifs
    · exact avoids_bind (avoids_stoulMasked _ _ _) fun _ => avoids_pure
    · exact avoids_bind (avoids_stoul32 _ _) fun _ => avoids_pure
    · exact avoids_bind (avoids_stoulMasked _ _ _) fun _ => avoids_pure
    · exact avoids_bind (avoids_stoulMasked _ _ _) fun _ => avoids_pure
    · exact avoids_pure

/-- `setFrameSPN` takes a number that the frame has. -/
theorem yields_setFrameSPN (frame : GenericFrame) (value : Token) :
    (setFrameSPN frame value).Yields fun spn =>
      ∀ number ∈ spn, (frame.spns.find? number).isSome := by
  refine yields_bind fun number => yields_pure ?_
  intro n hn
  exact (Option.filter_eq_some_iff.mp hn).2

/-- A parameter other than `spn` keeps the SPN. -/
theorem yields_spn_setFrameParam (env : SenderEnv) (key value : Token) (set : SetFrame) :
    (setFrameParam env key value set).Yields fun set' =>
      set'.spn = set.spn ∨ ∀ number ∈ set'.spn, (set'.frame.findSPN number).isSome := by
  unfold setFrameParam
  split_ifs
  · split
    · exact yields_pure (.inl rfl)
    · next f hf =>
      refine (yields_setFrameSPN f value).bind fun spn hspn => yields_pure (.inr ?_)
      intro number hnumber
      rw [Frame.findSPN, hf]
      exact hspn number hnumber
  · split
    · exact yields_pure (.inl rfl)
    · exact yields_bind fun _ => yields_pure (.inl rfl)
  · unfold parseSetGenericParams
    split_ifs
    · exact yields_bind fun _ => yields_pure (.inl rfl)
    · exact yields_bind fun _ => yields_pure (.inl rfl)
    · exact yields_bind fun _ => yields_pure (.inl rfl)
    · exact yields_bind fun _ => yields_pure (.inl rfl)
    · exact yields_pure (.inl rfl)

theorem yields_spnFound (env : SenderEnv) (key value : Token) {set : SetFrame}
    (h : set.SpnFound) : (setFrameParam env key value set).Yields SetFrame.SpnFound := by
  intro set' hset
  rcases yields_spn_setFrameParam env key value set set' hset with hspn | hfound
  · intro number hnumber
    rw [(filledFrom_setFrameParam env key value set set' hset).message.isSome_findSPN]
    exact h number (hspn ▸ hnumber)
  · exact hfound

theorem avoids_parseSetFrameCommand (env : SenderEnv) (s : SenderState) (name : Token)
    (arguments : List Token) : (parseSetFrameCommand env s name arguments).Avoids .undefined := by
  unfold parseSetFrameCommand
  split
  · exact avoids_pure
  · refine avoids_bind (avoids_processCommandParameters (P := SetFrame.SpnFound)
      (fun key value _ h => avoids_setFrameParam env key value h)
      (fun key value _ h => yields_spnFound env key value h) arguments (by rintro _ ⟨⟩)) fun set => ?_
    cases set.period with
    | none => exact avoids_pure
    | some period => exact avoids_onInterfaces _ _

/-! ### The other commands -/

section Commands

variable (env : SenderEnv) (s : SenderState)

theorem avoids_parseCreateFrameCommand (arguments : List Token) :
    (parseCreateFrameCommand env s arguments).Avoids .undefined := by
  unfold parseCreateFrameCommand
  refine avoids_bind (avoids_parameters ?_ arguments _) ?_
  · rintro key value ⟨name, pgn, title⟩
    dsimp only
    split_ifs <;> exact avoids_pure
  · rintro ⟨name, pgn, title⟩
    dsimp only
    split_ifs
    · exact avoids_pure
    · exact avoids_pure
    · exact avoids_pure
    · refine avoids_bind ?_ fun frameToAdd => ?_
      · cases hnumber : stoul32 16 pgn with
        | error e =>
          refine avoids_error ?_
          rintro rfl
          exact avoids_stoul32 16 pgn hnumber
        | ok number => exact avoids_ok
      · cases frameToAdd <;> exact avoids_pure
    · refine avoids_bind avoids_pure fun frameToAdd => ?_
      cases frameToAdd <;> exact avoids_pure

/-- An interface in the parameters is taken if it is initialized. -/
theorem yields_interfaceParam (key value : Token) {interface : Token}
    (h : interface = [] ∨ interface ∈ s.interfaces) :
    (interfaceParam s key value interface).Yields fun interface =>
      interface = [] ∨ interface ∈ s.interfaces := by
  unfold interfaceParam
  split_ifs with hvalue
  · exact yields_pure (.inr hvalue.2)
  · exact yields_pure h

theorem avoids_interfaceParam (key value interface : Token) :
    (interfaceParam s key value interface).Avoids .undefined := by
  unfold interfaceParam
  split_ifs <;> exact avoids_pure

theorem avoids_parseSendFrameCommand (name : Token) (arguments : List Token) :
    (parseSendFrameCommand s name arguments).Avoids .undefined := by
  unfold parseSendFrameCommand
  split
  · exact avoids_pure
  · refine (avoids_parameters (avoids_interfaceParam s) arguments []).bind
      (yields_processCommandParameters (fun key value _ => yields_interfaceParam s key value)
        arguments (.inl rfl)) fun interface hinterface => ?_
    dsimp only
    split_ifs with hnil
    · exact avoids_pure
    · exact avoids_onInterface _ (hinterface.resolve_left hnil)

theorem avoids_parseUnsendFrameCommand (name : Token) (arguments : List Token) :
    (parseUnsendFrameCommand s name arguments).Avoids .undefined := by
  unfold parseUnsendFrameCommand
  split
  · exact avoids_pure
  · refine avoids_bind (avoids_parameters (fun key value interface => ?_) arguments [])
      fun interface => avoids_bind (avoids_escape _) fun _ => avoids_pure
    split_ifs <;> exact avoids_pure

/-- `send addr` is undefined when only its interface is wrong. -/
theorem parseSendAddrCommand_eq_undefined_iff (arguments : List Token) :
    parseSendAddrCommand s arguments = .error .undefined ↔ BadSendAddr s arguments := by
  have hparams : (processCommandParameters sendAddrParam arguments (0, 0, [])).Avoids
      .undefined := by
    refine avoids_parameters (fun key value ⟨addr, id, interface⟩ => ?_) arguments _
    unfold sendAddrParam
    split_ifs
    · exact avoids_bind (avoids_caught _) fun _ => avoids_pure
    · exact avoids_bind (avoids_stoul32 _ _) fun _ => avoids_pure
    · exact avoids_pure
    · exact avoids_pure
  unfold parseSendAddrCommand
  rw [hparams.bind_eq_error_iff]
  constructor
  · rintro ⟨⟨addr, id, interface⟩, hok, herror⟩
    dsimp only at herror
    split_ifs at herror with hzero hnil
    · exact absurd herror avoids_pure
    · exact absurd herror avoids_pure
    · rw [not_or] at hzero
      exact ⟨addr, id, interface, hok, hzero.1, hzero.2, hnil,
        (onInterface_eq_undefined_iff _).mp herror⟩
  · rintro ⟨addr, id, interface, hok, hid, haddr, hnil, hmem⟩
    refine ⟨(addr, id, interface), hok, ?_⟩
    dsimp only
    rw [if_neg (not_or.mpr ⟨hid, haddr⟩), if_neg hnil]
    exact (onInterface_eq_undefined_iff _).mpr hmem

theorem avoids_parseSendTTSCommand (arguments : List Token) :
    (parseSendTTSCommand s arguments).Avoids .undefined := by
  unfold parseSendTTSCommand
  refine Avoids.bind (P := fun params => params.1 = [] ∨ params.1 ∈ s.interfaces)
    (avoids_parameters ?_ arguments _) (yields_processCommandParameters ?_ arguments (.inl rfl)) ?_
  · rintro key value ⟨interface, ttsPeriod⟩
    dsimp only
    split_ifs
    · exact avoids_bind (avoids_stoul32 _ _) fun _ => avoids_pure
    · exact avoids_bind (avoids_interfaceParam s key value interface) fun _ => avoids_pure
  · rintro key value ⟨interface, ttsPeriod⟩ hparams
    dsimp only
    split_ifs
    · exact yields_bind fun _ => yields_pure hparams
    · exact (yields_interfaceParam s key value hparams).bind fun _ h => yields_pure h
  · rintro ⟨interface, ttsPeriod⟩ hinterface
    cases ttsPeriod with
    | none => exact avoids_pure
    | some period =>
      dsimp only
      split_ifs with hnil
      · exact avoids_pure
      · exact avoids_onInterface _ (hinterface.resolve_left hnil)

theorem avoids_parseSetTTSCommand (arguments : List Token) :
    (parseSetTTSCommand s arguments).Avoids .undefined := by
  unfold parseSetTTSCommand
  refine avoids_bind (avoids_parameters ?_ arguments _) ?_
  · rintro key value ⟨number, status⟩
    dsimp only
    split_ifs
    · exact avoids_bind (avoids_stoulMasked _ _ _) fun _ => avoids_pure
    · exact avoids_bind (avoids_stoulMasked _ _ _) fun _ => avoids_pure
    · exact avoids_pure
  · rintro ⟨number, status⟩
    dsimp only
    split_ifs
    · exact avoids_onInterfaces _ _
    · exact avoids_pure
    · exact avoids_pure

theorem avoids_parseListTTSCommand (arguments : List Token) :
    (parseListTTSCommand s arguments).Avoids .undefined := by
  unfold parseListTTSCommand
  split_ifs
  · refine avoids_bind (avoids_parameters (fun key value number => ?_) arguments 0)
      fun _ => avoids_pure
    split_ifs
    · exact avoids_bind (avoids_stoulMasked _ _ _) fun _ => avoids_pure
    · exact avoids_pure
  · exact avoids_bind avoids_pure fun _ => avoids_pure

theorem avoids_parseDtcCommand (arguments : List Token) :
    (parseDtcCommand arguments).Avoids .undefined := by
  unfold parseDtcCommand
  refine avoids_bind (avoids_parameters (fun key value dtc => ?_) arguments _) fun _ => avoids_pure
  split_ifs
  · exact avoids_bind (avoids_stoul32 _ _) fun _ => avoids_pure
  · exact avoids_bind (avoids_stoulMasked _ _ _) fun _ => avoids_pure
  · exact avoids_bind (avoids_stoulMasked _ _ _) fun _ => avoids_pure
  · exact avoids_pure

/-- What is listed of a frame. -/
theorem avoids_listFrame (name : Token) (frame : Frame) :
    (listFrame s name frame).Avoids .undefined := by
  refine avoids_bind ?_ fun _ => avoids_pure
  unfold listRaw
  split
  · split_ifs
    · exact avoids_ok
    · exact avoids_error (by rintro ⟨⟩)
  · split
    · split_ifs
      · exact avoids_ok
      · exact avoids_error (by rintro ⟨⟩)
    · exact avoids_ok

theorem avoids_callCmdFunc (func : CmdFunc) : (callCmdFunc s func).Avoids .undefined := by
  cases func with
  | parseQuitCommand => exact avoids_error (by rintro ⟨⟩)
  | parseListFramesCommand =>
    exact avoids_bind (avoids_bind (avoids_mapM fun e _ => avoids_listFrame s e.1 e.2)
      fun _ => avoids_pure) fun _ => avoids_pure
  | parseListCommandsCommand => exact avoids_pure
  | parseListInterfacesCommand => exact avoids_pure
  | parseUnsendTTSCommand => exact avoids_pure

/-- `get` is undefined for a frame that is no `GenericFrame`. -/
theorem parseGetCommand_eq_undefined_iff (arguments : List Token) :
    parseGetCommand env s arguments = .error .undefined ↔ BadGet env arguments := by
  have hparams : (processCommandParameters getParam arguments []).Avoids .undefined := by
    refine avoids_parameters (fun key value pgn => ?_) arguments _
    unfold getParam
    split_ifs <;> exact avoids_pure
  unfold parseGetCommand
  rw [hparams.bind_eq_error_iff]
  constructor
  · rintro ⟨pgn, hok, herror⟩
    split_ifs at herror with hpgn
    · cases herror
    · obtain ⟨number, hnumber, hframe⟩ := (avoids_stoul32 0 pgn).bind_eq_error_iff.mp herror
      dsimp only at hframe
      split at hframe
      · cases hframe
      · next frame hfind =>
        obtain ⟨n, rfl, hn⟩ := Option.bind_eq_some_iff.mp hfind
        split_ifs at hframe with hnone
        · exact ⟨pgn, n, frame, hok, hpgn, hnumber, hn, hnone⟩
        · cases hframe
  · rintro ⟨pgn, n, frame, hok, hpgn, hnumber, hfind, hnone⟩
    refine ⟨pgn, hok, ?_⟩
    rw [if_neg hpgn, (avoids_stoul32 0 pgn).bind_eq_error_iff]
    refine ⟨some n, hnumber, ?_⟩
    dsimp only [Option.bind_some]
    rw [hfind]
    exact if_pos hnone

end Commands

/-! ### Trouble codes -/

/-- Frames with the PGN of a DM1 frame are DM1 frames. -/
def SenderEnv.RegistersDM1 (env : SenderEnv) : Prop :=
  ∀ prototype ∈ env.factory.frames.values, getPGN prototype = dm1Pgn → ∃ f, prototype = .dm1 f

/-- The constructor of the factory comes before everything else that registers frames. -/
theorem registersDM1_registerFrames (frames : List Frame)
    (stod : Token → Except ConversionError (Option ℚ)) (script : Token → Option (List Token)) :
    SenderEnv.RegistersDM1 ⟨J1939Factory.new.registerFrames frames, stod, script⟩ := by
  intro prototype hmem hpgn
  obtain ⟨⟨pgn, prototype⟩, hentry, rfl⟩ := List.mem_map.mp hmem
  have hfind := SortedMap.mem_entries_iff.mp hentry
  have hkeys := J1939Factory.registerFrames_keysMatch J1939Factory.new_keysMatch frames
  have hnew : J1939Factory.new.frames.find? dm1Pgn = some (.dm1 DM1.new) := by decide
  have hfirst := J1939Factory.find?_registerFrames hnew frames
  have hkey : pgn = dm1Pgn := (hkeys pgn prototype hfind).symm.trans hpgn
  rw [hkey] at hfind
  exact ⟨DM1.new, Option.some.inj (hfind.symm.trans hfirst)⟩

section TroubleCodes

variable {env : SenderEnv} {s : SenderState}

/-- A name that is taken for a DM1 frame stands for one. -/
theorem NamesDM1.exists_dm1 (henv : env.RegistersDM1) (hs : s.Consistent env) {name : Token}
    (h : NamesDM1 s name) :
    ∃ f, s.framesToSend.find? name = some (.dm1 f) ∧ getPGN (Frame.dm1 f) = dm1Pgn := by
  obtain ⟨frame, hframe, hpgn⟩ := h
  obtain ⟨prototype, hmem, hfilled⟩ := hs.origin name frame hframe
  obtain ⟨f, rfl⟩ := henv prototype hmem (hfilled.message.getPGN_eq.symm.trans hpgn)
  obtain ⟨g, rfl⟩ := hfilled.exists_dm1
  exact ⟨g, hframe, hpgn⟩

/-- A change of trouble codes is undefined when it is so for a DM1 frame. -/
theorem onDM1_eq_undefined_iff (henv : env.RegistersDM1) (hs : s.Consistent env) (name : Token)
    {change : DM1 → Except Ending DM1} {bad : Prop}
    (hchange : ∀ f, change f = .error .undefined ↔ bad) :
    onDM1 s name change = .error .undefined ↔ NamesDM1 s name ∧ bad := by
  unfold onDM1
  constructor
  · intro herror
    split at herror
    · cases herror
    · next frame hframe =>
      split_ifs at herror with hpgn
      · cases herror
      · rw [not_not] at hpgn
        have hname : NamesDM1 s name := ⟨frame, hframe, hpgn⟩
        obtain ⟨f, hf, -⟩ := hname.exists_dm1 henv hs
        rw [hframe] at hf
        cases hf
        rcases bind_eq_error_iff.mp herror with hundefined | ⟨_, -, ⟨⟩⟩
        exact ⟨hname, (hchange f).mp hundefined⟩
  · rintro ⟨hname, hbad⟩
    obtain ⟨f, hf, hpgn⟩ := hname.exists_dm1 henv hs
    rw [hf]
    dsimp only
    rw [if_neg (not_not.mpr hpgn), (hchange f).mpr hbad]
    rfl

theorem avoids_parseAddDtcCommand (henv : env.RegistersDM1) (hs : s.Consistent env) (name : Token)
    (arguments : List Token) : (parseAddDtcCommand s name arguments).Avoids .undefined := by
  have hundefined : parseAddDtcCommand s name arguments = .error .undefined ↔
      NamesDM1 s name ∧ False :=
    onDM1_eq_undefined_iff henv hs name fun f =>
      iff_false_intro (avoids_bind (avoids_parseDtcCommand arguments) fun _ => avoids_pure)
  exact fun herror => (hundefined.mp herror).2

/-- `set dtc` uses the position only for a trouble code. -/
theorem parseSetDtcCommand_eq_undefined_iff (henv : env.RegistersDM1) (hs : s.Consistent env)
    (name : Token) (arguments : List Token) :
    parseSetDtcCommand s name arguments = .error .undefined ↔
      NamesDM1 s name ∧ BadSetDtc arguments := by
  refine onDM1_eq_undefined_iff henv hs name fun f => ?_
  cases arguments with
  | nil => exact iff_of_true rfl (.inl rfl)
  | cons posStr arguments =>
    rw [BadSetDtc, or_iff_right (List.cons_ne_nil _ _), NoPosition, List.tail_cons]
    cases hpos : Conversion.stoul 10 posStr with
    | ok pos =>
      refine iff_of_false ?_ (by rintro ⟨⟨⟩, -⟩)
      rw [parsePosition, hpos]
      intro herror
      obtain ⟨dtc, -, hset⟩ := (avoids_parseDtcCommand arguments).bind_eq_error_iff.mp herror
      cases dtc <;> cases hset
    | error e =>
      cases e with
      | outOfRange =>
        refine iff_of_false ?_ (by rintro ⟨⟨⟩, -⟩)
        rw [parsePosition, hpos]
        exact avoids_error (by rintro ⟨⟩)
      | invalidArgument =>
        rw [parsePosition, hpos]
        refine (avoids_parseDtcCommand arguments).bind_eq_error_iff.trans ?_
        constructor
        · rintro ⟨dtc, hdtc, herror⟩
          cases dtc with
          | none => cases herror
          | some dtc => exact ⟨rfl, dtc, hdtc⟩
        · rintro ⟨-, dtc, hdtc⟩
          exact ⟨some dtc, hdtc, rfl⟩

/-- `delete dtc` uses the position always. -/
theorem parseDeleteDtcCommand_eq_undefined_iff (henv : env.RegistersDM1) (hs : s.Consistent env)
    (name : Token) (arguments : List Token) :
    parseDeleteDtcCommand s name arguments = .error .undefined ↔
      NamesDM1 s name ∧ NoPosition arguments := by
  refine onDM1_eq_undefined_iff henv hs name fun f => ?_
  cases arguments with
  | nil => exact iff_of_true rfl trivial
  | cons posStr arguments =>
    rw [NoPosition, parsePosition]
    cases hpos : Conversion.stoul 10 posStr with
    | ok pos => exact iff_of_false (by rintro ⟨⟩) (by rintro ⟨⟩)
    | error e =>
      cases e with
      | outOfRange => exact iff_of_false (by rintro ⟨⟩) (by rintro ⟨⟩)
      | invalidArgument => exact iff_of_true rfl rfl

/-- A call is undefined when it is faulty. -/
theorem callCmdFuncWithArgs_eq_undefined_iff (henv : env.RegistersDM1) (hs : s.Consistent env)
    (func : CmdFuncWithArgs) (arguments : List Token) :
    callCmdFuncWithArgs env s func arguments = .error .undefined ↔
      Faulty env s (.callWithArgs func arguments) := by
  cases func with
  | parseCreateFrameCommand => exact iff_false_intro (avoids_parseCreateFrameCommand env s _)
  | parseListTTSCommand => exact iff_false_intro (avoids_parseListTTSCommand s _)
  | parsePrintFrameCommand => exact iff_false_intro avoids_pure
  | parseSetFrameCommand => exact iff_false_intro (avoids_parseSetFrameCommand env s _ _)
  | parseSetTTSCommand => exact iff_false_intro (avoids_parseSetTTSCommand s _)
  | parseSetDtcCommand => exact parseSetDtcCommand_eq_undefined_iff henv hs _ _
  | parseSendFrameCommand => exact iff_false_intro (avoids_parseSendFrameCommand s _ _)
  | parseSendTTSCommand => exact iff_false_intro (avoids_parseSendTTSCommand s _)
  | parseSendAddrCommand => exact parseSendAddrCommand_eq_undefined_iff s _
  | parseExecCommand => exact iff_false_intro avoids_pure
  | parseUnsendFrameCommand => exact iff_false_intro (avoids_parseUnsendFrameCommand s _ _)
  | parseAddDtcCommand => exact iff_false_intro (avoids_parseAddDtcCommand henv hs _ _)
  | parseDeleteDtcCommand => exact parseDeleteDtcCommand_eq_undefined_iff henv hs _ _
  | parseGetCommand => exact parseGetCommand_eq_undefined_iff env s _

end TroubleCodes

/-! ### Runs -/

/-- While the lines are run a line is met in the state `t`: one of them, or one of a script. -/
inductive Meets (env : SenderEnv) :
    ℕ → SenderState → List Token → SenderState → ParsedLine → Prop
  | line (fuel : ℕ) (s : SenderState) (line : Token) (lines : List Token) :
    Meets env fuel s (line :: lines) s (resolveLine line)
  | later {fuel : ℕ} {s s' t : SenderState} {line : Token} {lines : List Token} {met : ParsedLine}
    (hline : parseLine env fuel s line = .ok s') (h : Meets env fuel s' lines t met) :
    Meets env fuel s (line :: lines) t met
  | script {fuel : ℕ} {s t : SenderState} {line file : Token} {lines script : List Token}
    {met : ParsedLine} (hline : resolveLine line = .callWithArgs .parseExecCommand [file])
    (hscript : env.script file = some script) (h : Meets env fuel s script t met) :
    Meets env (fuel + 1) s (line :: lines) t met

section Runs

variable {env : SenderEnv}

/-- A line is undefined when it is faulty or a script is undefined. -/
theorem parseLine_eq_undefined_iff (henv : env.RegistersDM1) {s : SenderState}
    (hs : s.Consistent env) (fuel : ℕ) (line : Token) :
    parseLine env fuel s line = .error .undefined ↔
      Faulty env s (resolveLine line) ∨ ∃ file script fuel', fuel = fuel' + 1 ∧
        resolveLine line = .callWithArgs .parseExecCommand [file] ∧
        env.script file = some script ∧ parseLines env fuel' s script = .error .undefined := by
  unfold parseLine
  split
  · next hline => simp [hline, Faulty, pure, Except.pure]
  · next hline => simp [hline, Faulty, pure, Except.pure]
  · next hline => simp [hline, Faulty, pure, Except.pure]
  · next func hline =>
    rw [hline]
    refine iff_of_false (avoids_callCmdFunc s func) ?_
    rintro (hfaulty | ⟨_, _, _, -, ⟨⟩, -⟩)
    exact hfaulty
  · next file hline =>
    rw [hline]
    split
    · next hscript => simp [Faulty, hscript, pure, Except.pure]
    · next script hscript => simp [Faulty]
    · next script fuel' hscript =>
      constructor
      · intro h
        exact .inr ⟨file, script, fuel', rfl, rfl, hscript, h⟩
      · rintro (hfaulty | ⟨file', script', fuel'', hfuel, hfile, hscript', h⟩)
        · exact hfaulty.elim
        · cases hfile
          cases hfuel
          rw [hscript] at hscript'
          cases hscript'
          exact h
  · next func arguments hexec hline =>
    rw [hline, callCmdFuncWithArgs_eq_undefined_iff henv hs]
    refine (or_iff_left ?_).symm
    rintro ⟨file, script, fuel', -, hfile, -⟩
    cases hfile
    exact hexec file rfl rfl

/-- Induction on the scripts that may still be opened, and on the lines. -/
theorem parseLines_eq_undefined_iff (henv : env.RegistersDM1) (fuel : ℕ) {s : SenderState}
    (hs : s.Consistent env) (lines : List Token) :
    parseLines env fuel s lines = .error .undefined ↔
      ∃ t met, Meets env fuel s lines t met ∧ Faulty env t met := by
  induction fuel using Nat.strong_induction_on generalizing s lines with
  | _ fuel ihfuel =>
    induction lines generalizing s with
    | nil =>
      refine iff_of_false avoids_pure ?_
      rintro ⟨t, met, ⟨⟩, -⟩
    | cons line lines ih =>
      rw [parseLines, List.foldlM_cons, bind_eq_error_iff, parseLine_eq_undefined_iff henv hs]
      have hlater : ∀ s', parseLine env fuel s line = .ok s' → s'.Consistent env :=
        fun s' hline => ((steps_parseLine env s fuel line s' hline).preserves hs).1
      constructor
      · rintro ((hfaulty | ⟨file, script, fuel', rfl, hfile, hscript, h⟩) | ⟨s', hline, h⟩)
        · exact ⟨s, _, .line fuel s line lines, hfaulty⟩
        · obtain ⟨t, met, hmeets, hfaulty⟩ := (ihfuel fuel' (by omega) hs script).mp h
          exact ⟨t, met, .script hfile hscript hmeets, hfaulty⟩
        · obtain ⟨t, met, hmeets, hfaulty⟩ := (ih (hlater s' hline)).mp h
          exact ⟨t, met, .later hline hmeets, hfaulty⟩
      · rintro ⟨t, met, hmeets, hfaulty⟩
        cases hmeets with
        | line => exact .inl (.inl hfaulty)
        | later hline hmeets =>
          exact .inr ⟨_, hline, (ih (hlater _ hline)).mpr ⟨t, met, hmeets, hfaulty⟩⟩
        | @script fuel' _ _ _ file _ script _ hfile hscript hmeets =>
          exact .inl (.inr ⟨file, script, fuel', rfl, hfile, hscript,
            (ihfuel fuel' (by omega) hs script).mpr ⟨t, met, hmeets, hfaulty⟩⟩)

end Runs

end J1939
