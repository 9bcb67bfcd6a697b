import J1939.Lib.CommandTree
import J1939.Lib.Words

/-!
# The commands of the sender

`j1939Sender` reads lines of commands. The words of a line are looked up in a tree of commands,
and what is left of them are the arguments.
-/

namespace J1939

/-- A `std::string` that has been typed. -/
abbrev Token := List Char

/-- `splitTokens`: a token goes to the next space, the next one begins behind the spaces. -/
def splitTokens (arguments : Token) : List Token := Words.split ' ' arguments

/-- `CommandHelper::CmdFunc`. -/
inductive CmdFunc
  | parseQuitCommand
  | parseListFramesCommand
  | parseListCommandsCommand
  | parseListInterfacesCommand
  | parseUnsendTTSCommand
  deriving DecidableEq, Repr

/-- `CommandHelper::CmdFuncWithArgs`. -/
inductive CmdFuncWithArgs
  | parseCreateFrameCommand
  | parseListTTSCommand
  | parsePrintFrameCommand
  | parseSetFrameCommand
  | parseSetTTSCommand
  | parseSetDtcCommand
  | parseSendFrameCommand
  | parseSendTTSCommand
  | parseSendAddrCommand
  | parseExecCommand
  | parseUnsendFrameCommand
  | parseAddDtcCommand
  | parseDeleteDtcCommand
  | parseGetCommand
  deriving DecidableEq, Repr

/-- The two function pointers of a `CommandHelper`. -/
structure CmdFuncs where
  cmdFunc : Option CmdFunc := none
  cmdFuncWithArgs : Option CmdFuncWithArgs := none
  deriving DecidableEq, Repr

/-- A command that exists has a function. -/
def CmdFuncs.Exists (funcs : CmdFuncs) : Prop :=
  ¬(funcs.cmdFuncWithArgs = none ∧ funcs.cmdFunc = none)

instance (funcs : CmdFuncs) : Decidable funcs.Exists := inferInstanceAs (Decidable (¬_))

abbrev CommandHelper := CommandTree Token CmdFuncs

namespace CommandHelper

/-- The constructor from the word alone, with sub-commands added. -/
def ofCommand (command : String) (subCommands : List CommandHelper) : CommandHelper :=
  .node command.toList {} subCommands

/-- The constructor with a function. -/
def ofFunc (command : String) (func : CmdFunc) : CommandHelper :=
  .node command.toList { cmdFunc := some func } []

/-- The constructor with a function of arguments. -/
def ofFuncWithArgs (command : String) (func : CmdFuncWithArgs) : CommandHelper :=
  .node command.toList { cmdFuncWithArgs := some func } []

end CommandHelper

open CommandHelper in
/-- `baseCommand` as `registerCommands` leaves it. -/
def baseCommand : CommandHelper :=
  ofCommand "" [
    ofCommand "create" [ofFuncWithArgs "frame" .parseCreateFrameCommand],
    ofFunc "quit" .parseQuitCommand,
    ofCommand "list" [
      ofFunc "frames" .parseListFramesCommand,
      ofFunc "commands" .parseListCommandsCommand,
      ofFunc "interfaces" .parseListInterfacesCommand,
      ofFuncWithArgs "tts" .parseListTTSCommand],
    ofCommand "print" [ofFuncWithArgs "frame" .parsePrintFrameCommand],
    ofCommand "set" [
      ofFuncWithArgs "frame" .parseSetFrameCommand,
      ofFuncWithArgs "tts" .parseSetTTSCommand,
      ofFuncWithArgs "dtc" .parseSetDtcCommand],
    ofCommand "send" [
      ofFuncWithArgs "frame" .parseSendFrameCommand,
      ofFuncWithArgs "tts" .parseSendTTSCommand,
      ofFuncWithArgs "addr" .parseSendAddrCommand],
    ofFuncWithArgs "exec" .parseExecCommand,
    ofCommand "unsend" [
      ofFuncWithArgs "frame" .parseUnsendFrameCommand,
      ofFunc "tts" .parseUnsendTTSCommand],
    ofCommand "add" [ofFuncWithArgs "dtc" .parseAddDtcCommand],
    ofCommand "delete" [ofFuncWithArgs "dtc" .parseDeleteDtcCommand],
    ofFuncWithArgs "get" .parseGetCommand]

/-- `findSubCommand`: the command, and the arguments that are left. -/
def findSubCommand (cmd : CommandHelper) (args : List Token) : CommandHelper × List Token :=
  cmd.descend args

mutual

/-- `getSubCommandNames`. -/
def getSubCommandNames : CommandHelper → List Token
  | .node cmdName _ [] => [cmdName]
  | .node cmdName _ (sub :: subs) =>
    (getSubCommandNamesOf (sub :: subs)).map fun name =>
      cmdName ++ (if cmdName = [] then [] else [' ']) ++ name

/-- The names of the sub-commands, one sub-command after the other. -/
def getSubCommandNamesOf : List CommandHelper → List Token
  | [] => []
  | sub :: subs => getSubCommandNames sub ++ getSubCommandNamesOf subs

end

/-- What `parseListCommandsCommand` prints, line by line. -/
def parseListCommandsCommand : List Token := getSubCommandNames baseCommand

/-- What `parseLine` makes of a line before it calls a function. -/
inductive ParsedLine
  | nothing
  | unknown
  | wrongArguments
  | call (func : CmdFunc)
  | callWithArgs (func : CmdFuncWithArgs) (arguments : List Token)
  deriving DecidableEq, Repr

/-- The part of `parseLine` that looks the tokens up. -/
def resolveTokens (tokens : List Token) : ParsedLine :=
  let (cmd, tokens) := findSubCommand baseCommand tokens
  if ¬cmd.label.Exists then .unknown
  else
    match tokens, cmd.label.cmdFunc, cmd.label.cmdFuncWithArgs with
    | _ :: _, _, some func => .callWithArgs func tokens
    | [], some func, _ => .call func
    | _, _, _ => .wrongArguments

/-- `parseLine` up to the call. What follows `'#'` is a comment. -/
def resolveLine (line : Token) : ParsedLine :=
  if line = [] ∨ line.head? = some '#' then .nothing
  else resolveTokens (splitTokens (line.takeWhile (· ≠ '#')))

/-! ### The list of commands -/

/-- A path in the tree as it is printed. -/
def spell : List Token → Token
  | [] => []
  | [word] => word
  | word :: words => word ++ (if word = [] then [] else [' ']) ++ spell words

theorem spell_cons (word : Token) {words : List Token} (h : words ≠ []) :
    spell (word :: words) = word ++ (if word = [] then [] else [' ']) ++ spell words := by
  cases words with
  | nil => exact absurd rfl h
  | cons w words => rfl

mutual

/-- The printed names are the paths to the leaves. -/
theorem getSubCommandNames_eq : (cmd : CommandHelper) →
    getSubCommandNames cmd = cmd.leaves.map spell
  | .node cmdName _ [] => rfl
  | .node cmdName funcs (sub :: subs) => by
    rw [getSubCommandNames, CommandTree.leaves, getSubCommandNamesOf_eq (sub :: subs),
      List.map_map, List.map_map]
    apply List.map_congr_left
    intro path hpath
    obtain ⟨s, -, hleaf⟩ := CommandTree.mem_leavesOf.mp hpath
    obtain ⟨words, rfl⟩ := CommandTree.exists_of_mem_leaves hleaf
    exact (spell_cons cmdName (by simp)).symm

theorem getSubCommandNamesOf_eq : (subs : List CommandHelper) →
    getSubCommandNamesOf subs = (CommandTree.leavesOf subs).map spell
  | [] => rfl
  | sub :: subs => by
    rw [getSubCommandNamesOf, CommandTree.leavesOf, List.map_append, getSubCommandNames_eq sub,
      getSubCommandNamesOf_eq subs]

end

/-- Words that are separated by single spaces when they are spelled. -/
def Plain (words : List Token) : Prop := words ≠ [] ∧ ∀ word ∈ words, word ≠ [] ∧ ' ' ∉ word

instance (words : List Token) : Decidable (Plain words) := inferInstanceAs (Decidable (_ ∧ _))

theorem Plain.exists_spell {words : List Token} (h : Plain words) :
    ∃ c cs, spell words = c :: cs ∧ c ≠ ' ' := by
  obtain ⟨word, words, rfl⟩ := List.exists_cons_of_ne_nil h.1
  obtain ⟨hword, hnot⟩ := h.2 word List.mem_cons_self
  obtain ⟨c, cs, rfl⟩ := List.exists_cons_of_ne_nil hword
  have hc : c ≠ ' ' := fun heq => hnot (heq ▸ List.mem_cons_self)
  cases words with
  | nil => exact ⟨c, cs, rfl, hc⟩
  | cons w words => exact ⟨c, _, rfl, hc⟩

theorem Plain.shows {words : List Token} (h : Plain words) : Words.Shows ' ' (spell words) words := by
  induction words with
  | nil => exact absurd rfl h.1
  | cons word words ih =>
    obtain ⟨hne, hspace⟩ := h.2 word List.mem_cons_self
    cases words with
    | nil =>
      have hshows := @Words.Shows.last _ ' ' word hspace 0
      rwa [List.replicate_zero, List.append_nil] at hshows
    | cons next words =>
      have hplain : Plain (next :: words) := ⟨by simp, fun w hw => h.2 w (List.mem_cons_of_mem _ hw)⟩
      rw [spell_cons word (by simp), if_neg hne]
      obtain ⟨c, cs, hspell, hc⟩ := hplain.exists_spell
      exact .cons hspace Nat.one_pos (by simp [hspell]) (by simpa [hspell] using hc) (ih hplain)

theorem Plain.resolveLine_spell {words : List Token} (h : Plain words)
    (hcomment : '#' ∉ spell words) : resolveLine (spell words) = resolveTokens words := by
  have hwhole : (spell words).takeWhile (· ≠ '#') = spell words := by
    rw [List.takeWhile_eq_self_iff]
    intro c hc
    exact decide_eq_true fun heq => hcomment (heq ▸ hc)
  obtain ⟨c, cs, hspell, -⟩ := h.exists_spell
  rw [resolveLine, if_neg, hwhole, splitTokens, h.shows.split_eq]
  rintro (hnil | hhead)
  · rw [hspell] at hnil
    cases hnil
  · exact hcomment (List.mem_of_head? hhead)

/-- No two commands of a level have the same word, and a command has a function or
sub-commands. -/
theorem baseCommand_proper : CommandTree.Proper CmdFuncs.Exists baseCommand := by
  have hfunc : ∀ command func, CommandTree.Proper CmdFuncs.Exists
      (CommandHelper.ofFunc command func) := fun _ _ => .leaf (by simp [CmdFuncs.Exists])
  have hargs : ∀ command func, CommandTree.Proper CmdFuncs.Exists
      (CommandHelper.ofFuncWithArgs command func) := fun _ _ => .leaf (by simp [CmdFuncs.Exists])
  have hgroup : ∀ command subs, subs ≠ [] → (subs.map CommandTree.key).Nodup →
      (∀ sub ∈ subs, CommandTree.Proper CmdFuncs.Exists sub) →
        CommandTree.Proper CmdFuncs.Exists (CommandHelper.ofCommand command subs) :=
    fun _ _ hne hkeys hsubs => .inner hne (by simp [CmdFuncs.Exists]) hkeys hsubs
  refine hgroup _ _ (by simp) (by decide) ?_
  simp only [List.forall_mem_cons, List.not_mem_nil, false_imp_iff, implies_true, and_true]
  refine ⟨?_, hfunc _ _, ?_, ?_, ?_, ?_, hargs _ _, ?_, ?_, ?_, hargs _ _⟩
  all_goals
    refine hgroup _ _ (by simp) (by decide) ?_
    simp only [List.forall_mem_cons, List.not_mem_nil, false_imp_iff, implies_true, and_true,
      hfunc, hargs]

/-- The paths of the tree, without the empty word at its root. -/
theorem plain_of_mem_leaves {path : List Token} (h : [] :: path ∈ baseCommand.leaves) :
    Plain path := by
  have hall : ∀ p ∈ baseCommand.leaves, Plain p.tail := by decide
  exact hall _ h

/-- The listed commands are the paths, and splitting a listed command gives its path. -/
theorem mem_parseListCommandsCommand {name : Token} : name ∈ parseListCommandsCommand ↔
    ∃ path, [] :: path ∈ baseCommand.leaves ∧ name = spell path ∧ splitTokens name = path := by
  rw [parseListCommandsCommand, getSubCommandNames_eq, List.mem_map]
  constructor
  · rintro ⟨p, hp, rfl⟩
    obtain ⟨path, rfl⟩ := CommandTree.exists_of_mem_leaves hp
    have hplain := plain_of_mem_leaves hp
    have hspell : spell ([] :: path) = spell path := spell_cons [] hplain.1
    exact ⟨path, hp, hspell, hspell ▸ hplain.shows.split_eq⟩
  · rintro ⟨path, hpath, rfl, -⟩
    exact ⟨[] :: path, hpath, spell_cons [] (plain_of_mem_leaves hpath).1⟩

end J1939
