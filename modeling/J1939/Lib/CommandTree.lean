import Mathlib.Data.List.Nodup
import Mathlib.Tactic.Common

/-!
# Trees of commands

A command is a word with sub-commands. The words of a line are followed from the root as long as
they name sub-commands; what is left are the arguments.
-/

/-- A command with its word, what it stands for, and its sub-commands in order. -/
inductive CommandTree (κ φ : Type)
  | node (key : κ) (label : φ) (children : List (CommandTree κ φ))

namespace CommandTree

variable {κ φ : Type}

def key : CommandTree κ φ → κ
  | node key _ _ => key

def label : CommandTree κ φ → φ
  | node _ label _ => label

def children : CommandTree κ φ → List (CommandTree κ φ)
  | node _ _ children => children

/-- The command that the words lead to, and the words that are left. -/
def descend [DecidableEq κ] (cmd : CommandTree κ φ) : List κ → CommandTree κ φ × List κ
  | [] => (cmd, [])
  | word :: words =>
    match cmd.children.find? fun sub => sub.key = word with
    | some sub => descend sub words
    | none => (cmd, word :: words)

mutual

/-- The words from a command to the commands without sub-commands. -/
def leaves : CommandTree κ φ → List (List κ)
  | node key _ [] => [[key]]
  | node key _ (sub :: subs) => (leavesOf (sub :: subs)).map fun path => key :: path

/-- The same for several commands. -/
def leavesOf : List (CommandTree κ φ) → List (List κ)
  | [] => []
  | sub :: subs => leaves sub ++ leavesOf subs

end

theorem mem_leavesOf {path : List κ} {subs : List (CommandTree κ φ)} :
    path ∈ leavesOf subs ↔ ∃ sub ∈ subs, path ∈ leaves sub := by
  induction subs with
  | nil => simp [leavesOf]
  | cons sub subs ih => simp [leavesOf, ih]

theorem mem_leaves_inner {path : List κ} {key : κ} {label : φ} {subs : List (CommandTree κ φ)}
    (h : subs ≠ []) :
    path ∈ leaves (node key label subs) ↔ ∃ sub ∈ subs, ∃ p ∈ leaves sub, path = key :: p := by
  cases subs with
  | nil => exact absurd rfl h
  | cons sub subs =>
    simp only [leaves, List.mem_map, mem_leavesOf]
    constructor
    · rintro ⟨p, ⟨s, hs, hp⟩, rfl⟩
      exact ⟨s, hs, p, hp, rfl⟩
    · rintro ⟨s, hs, p, hp, rfl⟩
      exact ⟨p, ⟨s, hs, hp⟩, rfl⟩

/-- A leaf begins with the word of the command. -/
theorem exists_of_mem_leaves {cmd : CommandTree κ φ} {path : List κ}
    (h : path ∈ leaves cmd) :
    ∃ words, path = cmd.key :: words := by
  obtain ⟨key, label, subs⟩ := cmd
  cases subs with
  | nil => exact ⟨[], List.mem_singleton.mp h⟩
  | cons sub subs =>
    obtain ⟨-, -, p, -, rfl⟩ := (mem_leaves_inner (by simp)).mp h
    exact ⟨p, rfl⟩

/-- The commands without sub-commands are the ones that do something, and no two sub-commands of
a command have the same word. -/
inductive Proper (active : φ → Prop) : CommandTree κ φ → Prop
  | leaf {key : κ} {label : φ} (hactive : active label) : Proper active (node key label [])
  | inner {key : κ} {label : φ} {subs : List (CommandTree κ φ)} (hne : subs ≠ [])
    (hidle : ¬active label) (hkeys : (subs.map CommandTree.key).Nodup)
    (hsubs : ∀ sub ∈ subs, Proper active sub) : Proper active (node key label subs)

section Descend

variable [DecidableEq κ] {active : φ → Prop} {cmd : CommandTree κ φ}

theorem find?_key {subs : List (CommandTree κ φ)} (hkeys : (subs.map CommandTree.key).Nodup)
    {sub : CommandTree κ φ} (hsub : sub ∈ subs) :
    subs.find? (fun s => s.key = sub.key) = some sub := by
  induction subs with
  | nil => cases hsub
  | cons s subs ih =>
    rw [List.map_cons, List.nodup_cons] at hkeys
    rcases List.mem_cons.mp hsub with rfl | hmem
    · exact List.find?_cons_of_pos (by simp)
    · rw [List.find?_cons_of_neg, ih hkeys.2 hmem]
      have hne : s.key ≠ sub.key := fun heq => hkeys.1 (heq ▸ List.mem_map_of_mem hmem)
      simpa using hne

/-- The words of a leaf lead to a command that does something, and leave the arguments. -/
theorem Proper.descend_leaf (h : Proper active cmd) {words : List κ}
    (hleaf : cmd.key :: words ∈ leaves cmd) (args : List κ) :
    active (cmd.descend (words ++ args)).1.label ∧
      cmd.descend (words ++ args) = ((cmd.descend words).1, args) ∧
      (cmd.descend words).2 = [] := by
  induction h generalizing words with
  | @leaf key label hactive =>
    obtain rfl : words = [] := (List.cons.inj (List.mem_singleton.mp hleaf)).2
    cases args <;> exact ⟨hactive, rfl, rfl⟩
  | @inner key label subs hne hidle hkeys hsubs ih =>
    obtain ⟨sub, hsub, path, hpath, heq⟩ := (mem_leaves_inner hne).mp hleaf
    obtain ⟨rest, rfl⟩ := exists_of_mem_leaves hpath
    obtain rfl : words = sub.key :: rest := (List.cons.inj heq).2
    have hfind := find?_key hkeys hsub
    simp only [List.cons_append, descend, children, hfind]
    exact ih sub hsub hpath

/-- Words that lead to a command that does something begin with those of a leaf. -/
theorem Proper.exists_leaf (h : Proper active cmd) {words : List κ}
    (hactive : active (cmd.descend words).1.label) :
    ∃ path, cmd.key :: path ∈ leaves cmd ∧ words = path ++ (cmd.descend words).2 := by
  induction h generalizing words with
  | @leaf key label _ =>
    refine ⟨[], List.mem_singleton.mpr rfl, ?_⟩
    cases words <;> rfl
  | @inner key label subs hne hidle hkeys hsubs ih =>
    cases words with
    | nil => exact absurd hactive hidle
    | cons word words =>
      simp only [descend, children] at hactive ⊢
      cases hfind : subs.find? fun s => s.key = word with
      | none =>
        rw [hfind] at hactive
        exact absurd hactive hidle
      | some sub =>
        rw [hfind] at hactive
        obtain ⟨path, hpath, hwords⟩ := ih sub (List.mem_of_find?_eq_some hfind) hactive
        have hkey : sub.key = word := by simpa using List.find?_some hfind
        refine ⟨word :: path, ?_, ?_⟩
        · rw [← hkey]
          exact (mem_leaves_inner hne).mpr ⟨sub, List.mem_of_find?_eq_some hfind, _, hpath, rfl⟩
        · exact congrArg (word :: ·) hwords

end Descend

end CommandTree
