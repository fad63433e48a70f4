import PlcLang.CommandLine.Options
import PlcLang.Interchange.Decoding
import PlcLang.Interchange.Encoding
import PlcLang.Json.Reader
import PlcLang.Json.Writer
import PlcLang.Parser.Program
import PlcLang.Session
import PlcLang.Text.Lines

namespace PlcLang.CommandLine

/-- What stands under a name. -/
inductive Entry where
  | text (content : String)
  | directory
deriving DecidableEq, Repr

/-- The files and directories there are, by name. -/
abbrev Entries := String → Option Entry

/-- An error that a command does not report but breaks off with. -/
inductive Crash where
  | directory
  | parse (e : ParseError)
  | json (e : Json.ReadError)
  | decode (e : DecodeError)
  | encode (e : EncodeError)
  | fault (f : Fault)
  | unfinished
deriving Repr

def Crash.message : Crash → String
  | .directory => "not a file but a directory"
  | .parse e => e.message
  | .json .malformed => "not a JSON document"
  | .json (.longInteger digits) => (Integer.ReadError.long digits).message
  | .decode e => e.message?.getD "not a tree"
  | .encode e => e.message
  | .fault f => f.message
  | .unfinished => "out of steps"

/-- What a command does: what it prints, the files it writes, and its status. -/
structure Effects where
  output : String := ""
  errors : String := ""
  files : Table String String := []
  status : Except Crash Nat := .ok 0

namespace Effects

/-- The command stops with a message. -/
def stop (e : Effects) (status : Nat) (message : String) : Effects :=
  { e with errors := e.errors ++ message ++ "\n", status := .ok status }

def crash (e : Effects) (c : Crash) : Effects :=
  { e with status := .error c }

end Effects

/-- A file name without empty parts and parts that are a single point. At its start, two slashes
stay two, and more are one. -/
def plainPath (name : String) : String :=
  let slashes := (name.toList.takeWhile (· = '/')).length
  let root := if slashes = 0 then "" else if slashes = 2 then "//" else "/"
  let parts := (name.toList.splitOn '/').filter fun p => p ≠ [] ∧ p ≠ ['.']
  let path := root ++ "/".intercalate (parts.map String.ofList)
  if path.isEmpty then "." else path

/-- The text of a file with unified line ends, for those who can use it. -/
def withText (entries : Entries) (name : String) (use : String → Effects) : Effects :=
  match entries (plainPath name) with
  | some (.text content) => use (String.ofList (Text.unifyLineEnds content.toList))
  | some .directory => Effects.crash {} .directory
  | none => Effects.stop {} 1 s!"Error: file {plainPath name} not found"

/-- What is reported of a problem. -/
def problemText (p : Problem) : String :=
  p.cause.errorClass.name ++ ": " ++ p.cause.message

/-- Reports a fault if it is the program's, and breaks off otherwise. -/
def Effects.report (e : Effects) (kind : String) (f : Fault) : Effects :=
  match f with
  | .problem p => e.stop 1 s!"{kind} error: {problemText p}"
  | f => e.crash (.fault f)

/-- The name of the file that holds what a run notes. -/
def debugFile : String := "debug.txt"

/-- Checks a program and runs it, unless only the check is asked for. -/
def checkAndRun (o : Options) (steps : Nat) (n : Node Unit) : Effects :=
  if o.checkOnly then
    match ((n.annotated #[]).check 0 []).1 with
    | .ok _ => {}
    | .error f => Effects.report {} "Analysis" f
  else
    match n.perform { debug := o.verbosity } steps true with
    | .rejected f => Effects.report {} "Analysis" f
    | .unfinished => Effects.crash {} .unfinished
    | .ran _ world result =>
      let done : Effects :=
        { output := world.output
          files := if o.verbosity = 0 then [] else [(debugFile, world.log)] }
      match result with
      | .ok _ => done
      | .error f => done.report "Runtime" f

/-- The program in a file, for those who can use one. -/
def withProgram (entries : Entries) (name : String) (use : Node Unit → Effects) : Effects :=
  withText entries name fun text =>
    match Program.parse text with
    | .ok p => use p.toNode
    | .error (.broken e) =>
      Effects.stop {} 1 ("Syntax error: ParseError: " ++ (ParseError.broken e).message)
    | .error e => Effects.crash {} (.parse e)

/-- Writes the tree of a program beside its file. -/
def emit (name : String) (n : Node Unit) : Effects :=
  match n.encode with
  | .ok j =>
    let target := plainPath name ++ ".ast.json"
    { output := target ++ "\n", files := [(target, j.toText)] }
  | .error e => Effects.crash {} (.encode e)

/-- Checks and runs the program whose tree is in a file. -/
def runTree (o : Options) (steps : Nat) (entries : Entries) (name : String) : Effects :=
  withText entries name fun text =>
    match Json.ofText text with
    | .error e => Effects.crash {} (.json e)
    | .ok j =>
      match Node.decode j with
      | .error e => Effects.crash {} (.decode e)
      | .ok n => checkAndRun o steps n

/-- What a command does, given the files there are. -/
def perform (steps : Nat) (entries : Entries) (arguments : List String) : Effects :=
  match Options.ofArguments arguments with
  | .error e => Effects.stop {} 2 ("plc: error: " ++ e.message)
  | .ok o =>
    if o.help then {}
    else
      match o.emitFrom, o.treeFrom with
      | some name, _ => withProgram entries name (emit name)
      | none, some name => runTree o steps entries name
      | none, none => withProgram entries (o.program.getD "") (checkAndRun o steps)

end PlcLang.CommandLine
