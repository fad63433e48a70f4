import PlcLang.CommandLine.Options
import PlcLang.Proofs.Except

/-! What commands ask for. -/

namespace PlcLang.CommandLine

/-- What a command does with a file. -/
inductive Task where
  | run
  | emit
  | runTree
deriving DecidableEq, Repr

/-- The arguments of a command ask for a task on a file, so many levels of debugging, and perhaps for
a check only. -/
def Asks (arguments : List String) (task : Task) (file : String) (verbosity : Nat)
    (checkOnly : Bool) : Prop :=
  ∃ o, Options.ofArguments arguments = .ok o ∧ o.help = false ∧ o.verbosity = verbosity ∧
    o.checkOnly = checkOnly ∧
    match task with
    | .run => o.emitFrom = none ∧ o.treeFrom = none ∧ o.program = some file
    | .emit => o.emitFrom = some file
    | .runTree => o.emitFrom = none ∧ o.treeFrom = some file

/-- The flags for so many levels of debugging, and for a check only. -/
def flags (verbosity : Nat) (checkOnly : Bool) : List String :=
  List.replicate verbosity "-v" ++ if checkOnly then ["--check"] else []

/-- A name that is not spelled like a flag. -/
def Plain (name : String) : Prop :=
  ∃ c ∈ name.toList.head?, c ≠ '-'

theorem Plain.ofText {name : String} (plain : Plain name) : Word.ofText name = .ok (.plain name) := by
  obtain ⟨c, first, other⟩ := plain
  have noFlag : Flag.spellings.lookup name = none := by
    rw [List.lookup_eq_none_iff]
    intro spelling known
    have dashed : ∀ s ∈ Flag.spellings, s.1.toList.head? = some '-' := by decide
    have dash := dashed spelling known
    rw [bne_iff_ne]
    rintro rfl
    rw [dash] at first
    cases first
    exact other rfl
  rw [Word.ofText, noFlag]
  simp only
  split
  · rename_i text
    rw [text] at first
    cases first
    exact absurd rfl other
  · rfl

theorem Plain.ordinary {name : String} (plain : Plain name) : name ≠ "--" := by
  rintro rfl
  obtain ⟨c, first, other⟩ := plain
  cases first
  exact other rfl

theorem Plain.given {name : String} (plain : Plain name) : Options.given (some name) = some name := by
  obtain ⟨c, first, -⟩ := plain
  have filled : name.isEmpty = false := by
    rw [Bool.eq_false_iff]
    intro empty
    rw [String.isEmpty_iff] at empty
    subst empty
    cases first
  simp [Options.given, Option.filter, filled]

/-- Words are read one by one, as long as no separator stands among them. -/
theorem words_cons {text : String} {rest : List String} {w : Word} {ws : List Word}
    (ordinary : text ≠ "--") (first : Word.ofText text = .ok w) (others : words rest = .ok ws) :
    words (text :: rest) = .ok (w :: ws) := by
  rw [words]
  · rw [first, others]
    rfl
  · exact ordinary

/-- The words of flags. -/
def flagWords (verbosity : Nat) (checkOnly : Bool) : List Word :=
  List.replicate verbosity (.flag .verbose none) ++ if checkOnly then [.flag .check none] else []

theorem words_flags {verbosity : Nat} {checkOnly : Bool} {rest : List String} {ws : List Word}
    (others : words rest = .ok ws) :
    words (flags verbosity checkOnly ++ rest) = .ok (flagWords verbosity checkOnly ++ ws) := by
  induction verbosity with
  | zero =>
    cases checkOnly with
    | false => exact others
    | true => exact words_cons (by decide) rfl others
  | succ n ih => exact words_cons (by decide) rfl ih

namespace Options

variable {o : Options} {stray : List String} {ws : List Word} {file : String}

theorem take_verbose :
    take o stray (.flag .verbose none :: ws) =
      take { o with verbosity := o.verbosity + 1 } stray ws := by
  rw [take.eq_def]
  rfl

theorem take_check :
    take o stray (.flag .check none :: ws) = take { o with checkOnly := true } stray ws := by
  rw [take.eq_def]
  rfl

theorem take_flags {verbosity : Nat} {checkOnly : Bool} :
    take o stray (flagWords verbosity checkOnly ++ ws) =
      take { o with
        verbosity := o.verbosity + verbosity, checkOnly := o.checkOnly || checkOnly } stray ws := by
  induction verbosity generalizing o with
  | zero =>
    cases checkOnly with
    | false => simp [flagWords]
    | true =>
      rw [Bool.or_true]
      exact take_check
  | succ n ih =>
    have first : flagWords (n + 1) checkOnly ++ ws =
        .flag .verbose none :: (flagWords n checkOnly ++ ws) := rfl
    rw [first, take_verbose, ih, Nat.add_assoc, Nat.add_comm 1 n]

end Options

variable (verbosity : Nat) (checkOnly : Bool) {file : String}

/-- Of arguments that are read without rest, no help is asked for. -/
theorem Options.ofArguments_eq {arguments : List String} {ws : List Word} {o : Options}
    (read : words arguments = .ok ws) (taken : take {} [] ws = .ok (o, []))
    (helpless : o.help = false) (emitFrom : given o.emitFrom = o.emitFrom)
    (treeFrom : given o.treeFrom = o.treeFrom) (program : given o.program = o.program)
    (named : (o.emitFrom.isNone && o.treeFrom.isNone && o.program.isNone) = false) :
    ofArguments arguments = .ok o := by
  obtain ⟨verbosity, checkOnly, emits, reads, runs, help⟩ := o
  cases helpless
  rw [ofArguments, read]
  simp only [bind, Except.bind, taken, emitFrom, treeFrom, program, named]
  rfl

/-- A command with flags and a file runs the program in it. -/
theorem asks_run (plain : Plain file) :
    Asks (flags verbosity checkOnly ++ [file]) .run file verbosity checkOnly := by
  let o : Options := { verbosity, checkOnly, program := some file }
  have read : words (flags verbosity checkOnly ++ [file]) =
      .ok (flagWords verbosity checkOnly ++ [.plain file]) :=
    words_flags (words_cons plain.ordinary plain.ofText rfl)
  have taken : Options.take {} [] (flagWords verbosity checkOnly ++ [.plain file]) =
      .ok (o, []) := by
    rw [Options.take_flags, Nat.zero_add, Bool.false_or]
    rfl
  exact ⟨o, Options.ofArguments_eq read taken rfl rfl rfl plain.given rfl, rfl, rfl, rfl, rfl, rfl,
    rfl⟩

/-- Behind `--emit-ast` stands the file whose program is written as a tree. -/
theorem asks_emit (plain : Plain file) :
    Asks (flags verbosity checkOnly ++ ["--emit-ast", file]) .emit file verbosity checkOnly := by
  let o : Options := { verbosity, checkOnly, emitFrom := some file }
  have read : words (flags verbosity checkOnly ++ ["--emit-ast", file]) =
      .ok (flagWords verbosity checkOnly ++ [.flag .emit none, .plain file]) :=
    words_flags (words_cons (by decide) rfl (words_cons plain.ordinary plain.ofText rfl))
  have taken : Options.take {} []
      (flagWords verbosity checkOnly ++ [.flag .emit none, .plain file]) = .ok (o, []) := by
    rw [Options.take_flags, Nat.zero_add, Bool.false_or]
    rfl
  exact ⟨o, Options.ofArguments_eq read taken rfl plain.given rfl rfl rfl, rfl, rfl, rfl, rfl⟩

/-- Behind `--ast` stands the file whose tree is run. -/
theorem asks_runTree (plain : Plain file) :
    Asks (flags verbosity checkOnly ++ ["--ast", file]) .runTree file verbosity checkOnly := by
  let o : Options := { verbosity, checkOnly, treeFrom := some file }
  have read : words (flags verbosity checkOnly ++ ["--ast", file]) =
      .ok (flagWords verbosity checkOnly ++ [.flag .tree none, .plain file]) :=
    words_flags (words_cons (by decide) rfl (words_cons plain.ordinary plain.ofText rfl))
  have taken : Options.take {} []
      (flagWords verbosity checkOnly ++ [.flag .tree none, .plain file]) = .ok (o, []) := by
    rw [Options.take_flags, Nat.zero_add, Bool.false_or]
    rfl
  exact ⟨o, Options.ofArguments_eq read taken rfl rfl plain.given rfl rfl, rfl, rfl, rfl, rfl, rfl⟩

end PlcLang.CommandLine
