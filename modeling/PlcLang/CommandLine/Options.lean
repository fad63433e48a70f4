import PlcLang.Text.Display

namespace PlcLang.CommandLine

/-- What a command asks for. -/
structure Options where
  verbosity : Nat := 0
  checkOnly : Bool := false
  emitFrom : Option String := none
  treeFrom : Option String := none
  program : Option String := none
  help : Bool := false
deriving DecidableEq, Repr

inductive Flag where
  | verbose | check | emit | tree | help
deriving DecidableEq, Repr

namespace Flag

/-- The spellings of a flag. -/
def spellings : List (String × Flag) :=
  [("-h", help), ("--help", help), ("-v", verbose), ("--check", check), ("--emit-ast", emit),
    ("--ast", tree)]

def name : Flag → String
  | verbose => "-v"
  | check => "--check"
  | emit => "--emit-ast"
  | tree => "--ast"
  | help => "-h/--help"

def ofLetter? (c : Char) : Option Flag :=
  spellings.lookup (String.ofList ['-', c])

/-- These flags are followed by a file name. -/
def takesFile : Flag → Bool
  | emit | tree => true
  | _ => false

end Flag

/-- What an argument is, before any file name is taken: a flag, perhaps with a text after an equals
sign; letters behind one minus sign, the first of which is a flag; some other text that looks like a
flag; or a plain text. After a separator all arguments are plain. -/
inductive Word where
  | flag (f : Flag) (attached : Option String)
  | letters (cs : List Char)
  | unknown (text : String)
  | plain (text : String)
  | separator
deriving DecidableEq, Repr

/-- Why a command cannot be obeyed. -/
inductive UsageError where
  | noProgram
  | unrecognized (arguments : List String)
  | conflict (second first : Flag)
  | noFile (f : Flag)
  | attached (f : Flag) (text : String)
  | ambiguous (text : String) (spellings : List String)
deriving DecidableEq, Repr

def UsageError.message : UsageError → String
  | noProgram => "missing program file; or use --emit-ast/--ast"
  | unrecognized arguments => "unrecognized arguments: " ++ " ".intercalate arguments
  | conflict second first => s!"argument {second.name}: not allowed with argument {first.name}"
  | noFile f => s!"argument {f.name}: expected one argument"
  | attached f text => s!"argument {f.name}: ignored explicit argument {Text.display text}"
  | ambiguous text spellings =>
    s!"ambiguous option: {text} could match " ++ ", ".intercalate spellings

/-- A text cut at its first equals sign. -/
def cutAtEqual (cs : List Char) : List Char × Option (List Char) :=
  let before := cs.takeWhile (· ≠ '=')
  (before, if before.length < cs.length then some (cs.drop (before.length + 1)) else none)

def startsWith : List Char → List Char → Bool
  | [], _ => true
  | _ :: _, [] => false
  | k :: ks, c :: cs => k == c && startsWith ks cs

/-- Digits with at most one point, after a minus sign: a number, not a flag. -/
def isNegativeNumber (cs : List Char) : Bool :=
  match cs with
  | '-' :: rest =>
    let whole := rest.takeWhile Char.isDigit
    match rest.drop whole.length with
    | [] => !whole.isEmpty
    | '.' :: places => !places.isEmpty && places.all Char.isDigit
    | _ => false
  | _ => false

/-- The flags that begin so. A long flag may be cut short, as long as one alone begins so. -/
def beginning (before : List Char) : List (String × Flag) :=
  Flag.spellings.filter fun (s, _) => startsWith before s.toList

/-- An argument that starts with a minus sign and is longer than that. -/
def Word.ofDashed (text : String) (c : Char) (rest : List Char) : Except UsageError Word :=
  let cs := '-' :: c :: rest
  let (before, after) := cutAtEqual cs
  let attached := after.map String.ofList
  match if attached.isSome then Flag.spellings.lookup (String.ofList before) else none with
  | some f => .ok (.flag f attached)
  | none =>
    let other : Word :=
      if isNegativeNumber cs || cs.contains ' ' then .plain text else .unknown text
    if c = '-' then
      match beginning before with
      | [] => .ok other
      | [(_, f)] => .ok (.flag f attached)
      | several => .error (.ambiguous text (several.map (·.1)))
    else
      .ok (if (Flag.ofLetter? c).isSome then .letters (c :: rest) else other)

def Word.ofText (text : String) : Except UsageError Word :=
  match Flag.spellings.lookup text with
  | some f => .ok (.flag f none)
  | none =>
    match text.toList with
    | '-' :: c :: rest => Word.ofDashed text c rest
    | _ => .ok (.plain text)

def words : List String → Except UsageError (List Word)
  | [] => .ok []
  | "--" :: rest => .ok (.separator :: rest.map .plain)
  | text :: rest => return (← Word.ofText text) :: (← words rest)

namespace Options

/-- Sets the file of `--emit-ast` or `--ast`; a command has one of them. -/
def setFile (o : Options) (f : Flag) (file : String) : Except UsageError Options :=
  match f with
  | .emit =>
    if o.treeFrom.isSome then .error (.conflict .emit .tree)
    else .ok { o with emitFrom := some file }
  | _ =>
    if o.emitFrom.isSome then .error (.conflict .tree .emit)
    else .ok { o with treeFrom := some file }

/-- A flag without a file. -/
def set (o : Options) (f : Flag) : Options :=
  match f with
  | .verbose => { o with verbosity := o.verbosity + 1 }
  | .check => { o with checkOnly := true }
  | .help => { o with help := true }
  | _ => o

/-- Letters that are each a flag. From the first that is none, they are left over. -/
def setLetters (o : Options) : List Char → Except UsageError (Options × List String)
  | [] => .ok (o, [])
  | c :: rest =>
    match Flag.ofLetter? c, rest with
    | none, _ => .ok (o, [String.ofList ('-' :: c :: rest)])
    | some f, '=' :: text => .error (.attached f (String.ofList text))
    | some f, '-' :: _ => .error (.attached f (String.ofList rest))
    | some f, _ => setLetters (o.set f) rest

/-- Takes the arguments in turn; the first plain one is the program, and a separator next to it is
passed over. Also gives those that nothing takes. -/
def take (o : Options) (stray : List String) : List Word → Except UsageError (Options × List String)
  | [] => .ok (o, stray)
  | .plain text :: .separator :: rest =>
    if o.program.isNone then take { o with program := some text } stray rest
    else take o (stray ++ [text, "--"]) rest
  | .plain text :: rest =>
    if o.program.isNone then take { o with program := some text } stray rest
    else take o (stray ++ [text]) rest
  | .separator :: rest => take o (if o.program.isNone then stray else stray ++ ["--"]) rest
  | .unknown text :: rest => take o (stray ++ [text]) rest
  | .flag .help none :: _ => .ok ({ o with help := true }, [])
  | .flag f attached :: rest =>
    if f.takesFile then
      match attached, rest with
      | some file, rest => do take (← o.setFile f file) stray rest
      | none, .plain file :: rest => do take (← o.setFile f file) stray rest
      | none, _ => .error (.noFile f)
    else
      match attached with
      | none => take (o.set f) stray rest
      | some text => .error (.attached f text)
  | .letters cs :: rest => do
    let (o, left) ← o.setLetters cs
    if o.help then return (o, []) else take o (stray ++ left) rest

/-- A file name that is given and not empty. -/
def given (name : Option String) : Option String :=
  name.filter fun n => !n.isEmpty

/-- What the arguments of a command ask for. -/
def ofArguments (arguments : List String) : Except UsageError Options := do
  let (o, stray) ← take {} [] (← words arguments)
  if o.help then return o
  if !stray.isEmpty then throw (.unrecognized stray)
  let o := { o with
    emitFrom := given o.emitFrom, treeFrom := given o.treeFrom, program := given o.program }
  if o.emitFrom.isNone && o.treeFrom.isNone && o.program.isNone then throw .noProgram
  return o

end Options

end PlcLang.CommandLine
