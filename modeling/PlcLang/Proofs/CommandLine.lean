import Mathlib
import PlcLang.Proofs.CommandLine.Arguments
import PlcLang.Proofs.CommandLine.Paths
import PlcLang.Proofs.Interchange
import PlcLang.Proofs.Interchange.Texts
import PlcLang.Proofs.Json.Lines

/-! A program runs from its file as it runs from the file of its tree. -/

namespace PlcLang

theorem textual_encode_literal {l : Literal} (lexical : l.Lexical) {j : Json}
    (h : l.encode = .ok j) : j.Textual := by
  have tagged (kind : String) {value : Json} (textual : value.Textual) :
      (Json.object [("kind", .string kind), ("value", value)]).Textual :=
    ⟨by simp, trivial, textual, trivial⟩
  cases l with
  | nil | boolean | decimal | string =>
    cases h
    exact tagged _ trivial
  | character content =>
    obtain ⟨c, rfl⟩ := lexical
    cases h
    exact tagged _ trivial
  | integer n =>
    rw [Literal.encode] at h
    split at h
    · cases h
      exact tagged _ trivial
    · cases h
  | foreign value => exact lexical.elim

theorem textual_optionalName (name : Option String) : (optionalName name).Textual := by
  cases name <;> trivial

theorem Operator.textual_toJson {op : Operator} (known : op ∈ Operator.all) : op.toJson.Textual := by
  cases op with
  | other given => simp [all] at known
  | _ => trivial

theorem Node.spelled_of_worded (n : Node Unit) (worded : n.Worded .lexical) : n.Spelled := by
  cases n with
  | literal _ value => exact fun j => textual_encode_literal worded
  | binary _ op _ _ => exact Operator.textual_toJson worded
  | global | parameter | function | declaration =>
    obtain ⟨⟨text, rfl⟩, type, rfl⟩ := worded
    exact ⟨trivial, textual_optionalName type⟩
  | access | call =>
    obtain ⟨text, rfl⟩ := worded
    trivial
  | _ => trivial

/-- The tree of a program that is parsed has a JSON form made of texts, which stands for it. -/
theorem Program.tree_exchanged {text : String} {p : Program} (parsed : Program.parse text = .ok p) :
    ∃ j, p.toNode.encode = .ok j ∧ j.Textual ∧ Node.decode j = .ok p.toNode := by
  have portable := (portable_parse parsed).worded
  have lexical := (Program.lexical_of_parse parsed).worded
  have settled : p.toNode.Every Node.Settled :=
    Node.Every.imp (Node.settled_of_worded fun _ (h : Literal.Portable _) => h.1) _ portable
  have writable : p.toNode.Every Node.Writable :=
    Node.Every.imp (Node.writable_of_worded fun _ (h : Literal.Portable _) => h.2) _ portable
  have spelled : p.toNode.Every Node.Spelled := Node.Every.imp Node.spelled_of_worded _ lexical
  obtain ⟨j, written⟩ := Node.encode_of_writable _ writable
  exact ⟨j, written, Node.textual_encode _ spelled written, Node.decode_encode _ settled written⟩

namespace CommandLine

/-- The files and directories there are when a command has written its files. -/
def Entries.after (entries : Entries) (files : Table String String) : Entries := fun name =>
  match files.lookup name with
  | some content => some (.text content)
  | none => entries name

/-- A file holds the text of a program. -/
def Entries.Hold (entries : Entries) (file : String) (p : Program) : Prop :=
  ∃ content, entries (plainPath file) = some (.text content) ∧
    Program.parse (String.ofList (Text.unifyLineEnds content.toList)) = .ok p

variable {entries : Entries} {file tree : String} {p : Program}

theorem withProgram_eq (h : entries.Hold file p) (use : Node Unit → Effects) :
    withProgram entries file use = use p.toNode := by
  obtain ⟨content, stored, parsed⟩ := h
  simp only [withProgram, withText, stored, parsed]

/-- Only the levels of debugging and whether it is a check count when a program is run. -/
theorem checkAndRun_congr {o o' : Options} (verbosity : o.verbosity = o'.verbosity)
    (checkOnly : o.checkOnly = o'.checkOnly) (steps : Nat) (n : Node Unit) :
    checkAndRun o steps n = checkAndRun o' steps n := by
  simp only [checkAndRun, verbosity, checkOnly]

theorem perform_run {arguments : List String} {verbosity : Nat} {checkOnly : Bool}
    (asks : Asks arguments .run file verbosity checkOnly) (h : entries.Hold file p) (steps : Nat) :
    perform steps entries arguments = checkAndRun { verbosity, checkOnly } steps p.toNode := by
  obtain ⟨o, read, helpless, verbose, check, emits, reads, runs⟩ := asks
  simp only [perform, read, helpless, emits, reads, runs, Option.getD_some, Bool.false_eq_true,
    ↓reduceIte]
  rw [withProgram_eq h]
  exact checkAndRun_congr verbose check steps _

theorem perform_emit {arguments : List String} {verbosity : Nat} {checkOnly : Bool}
    (asks : Asks arguments .emit file verbosity checkOnly) (h : entries.Hold file p) {j : Json}
    (written : p.toNode.encode = .ok j) (steps : Nat) :
    perform steps entries arguments =
      { output := treeFile file ++ "\n", files := [(treeFile file, j.toText)] } := by
  obtain ⟨o, read, helpless, -, -, emits⟩ := asks
  simp only [perform, read, helpless, emits, Bool.false_eq_true, ↓reduceIte]
  rw [withProgram_eq h]
  simp only [emit, written]
  rfl

theorem perform_runTree {arguments : List String} {verbosity : Nat} {checkOnly : Bool}
    (asks : Asks arguments .runTree tree verbosity checkOnly) {j : Json} {n : Node Unit}
    (stored : entries (plainPath tree) = some (.text j.toText)) (textual : j.Textual)
    (decoded : Node.decode j = .ok n) (steps : Nat) :
    perform steps entries arguments = checkAndRun { verbosity, checkOnly } steps n := by
  obtain ⟨o, read, helpless, verbose, check, emits, reads⟩ := asks
  simp only [perform, read, helpless, emits, reads, Bool.false_eq_true, ↓reduceIte, runTree,
    withText, stored, Json.ofText_file textual, decoded]
  exact checkAndRun_congr verbose check steps _

/-- A program that is written as a tree, which is then run or checked from its file, does the same as
when it is run or checked from its own file with as many levels of debugging. The text of the tree
reads back as the JSON value that was written. -/
theorem emitted_tree_runs {emits runs reads : List String} {v verbosity : Nat}
    {c checkOnly : Bool} (holds : entries.Hold file p) (named : plainPath tree = treeFile file)
    (emitting : Asks emits .emit file v c) (running : Asks runs .run file verbosity checkOnly)
    (reading : Asks reads .runTree tree verbosity checkOnly) (steps : Nat) :
    ∃ j, p.toNode.encode = .ok j ∧ Json.ofText j.toText = .ok j ∧
      perform steps entries emits =
        { output := treeFile file ++ "\n", files := [(treeFile file, j.toText)] } ∧
      perform steps (entries.after (perform steps entries emits).files) reads =
        perform steps entries runs := by
  obtain ⟨content, stored, parsed⟩ := holds
  obtain ⟨j, written, textual, decoded⟩ := Program.tree_exchanged parsed
  have emitted := perform_emit emitting ⟨content, stored, parsed⟩ written steps
  refine ⟨j, written, Json.ofText_toText textual, emitted, ?_⟩
  have there : Entries.after entries [(treeFile file, j.toText)] (plainPath tree) =
      some (.text j.toText) := by
    simp [Entries.after, named]
  rw [emitted, perform_run running ⟨content, stored, parsed⟩]
  exact perform_runTree reading there textual decoded steps

/-- A program that prints a quote and a tab. -/
def greeting : Program :=
  ⟨[], [⟨"main", [], none, [.expression (.call "print" [.literal (.string "\"\t")])]⟩]⟩

/-- The program in a file of a directory. -/
def greetingFiles : Entries := fun name =>
  if name = "plc/greet" then some (.text "FUN main() DO print(\"\\\"\\t\"); END") else none

/-- With two levels of debugging, it does the same from its file as from that of its tree. -/
theorem emitted_tree_runs_greeting :
    ∃ j : Json, perform 100 greetingFiles ["--emit-ast", "plc/greet"] =
        { output := "plc/greet.ast.json\n", files := [("plc/greet.ast.json", j.toText)] } ∧
      perform 100 (greetingFiles.after [("plc/greet.ast.json", j.toText)])
          ["-v", "-v", "--ast", "plc/greet.ast.json"] =
        perform 100 greetingFiles ["-v", "-v", "plc/greet"] := by
  have names : NamesFile "plc/greet" :=
    ⟨['p', 'l', 'c', '/'], ['g', 'r', 'e', 'e', 't'], rfl, .inr ⟨['p', 'l', 'c'], rfl⟩, by simp,
      by simp, by simp⟩
  have file : Plain "plc/greet" := ⟨'p', rfl, by decide⟩
  have tree : Plain "plc/greet.ast.json" := ⟨'p', rfl, by decide⟩
  have target : treeFile "plc/greet" = "plc/greet.ast.json" := by rfl
  have holds : greetingFiles.Hold "plc/greet" greeting := by
    refine ⟨_, by rfl, ?_⟩
    rw [Text.unifyLineEnds_of_unbroken (by decide), String.ofList_toList]
    cbv
  have emitting : Asks ["--emit-ast", "plc/greet"] .emit "plc/greet" 0 false :=
    asks_emit 0 false file
  have running : Asks ["-v", "-v", "plc/greet"] .run "plc/greet" 2 false := asks_run 2 false file
  have reading : Asks ["-v", "-v", "--ast", "plc/greet.ast.json"] .runTree
      "plc/greet.ast.json" 2 false := asks_runTree 2 false tree
  obtain ⟨j, -, -, emitted, same⟩ :=
    emitted_tree_runs holds (plainPath_treeFile names) emitting running reading 100
  rw [emitted, target] at same
  rw [target] at emitted
  exact ⟨j, emitted, same⟩

end CommandLine

end PlcLang
