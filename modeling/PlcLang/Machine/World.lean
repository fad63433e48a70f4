import PlcLang.Store

namespace PlcLang

/-- How the body of a loop sees what it declares. -/
inductive LoopScope where
  /-- One block for the condition and all rounds. -/
  | shared
  /-- The condition outside, and a block of its own for each round. -/
  | perRound
deriving DecidableEq, Repr

/-- What a run is given besides the program: how much it notes, how deep calls and lists may nest,
and the blocks of loops. -/
structure Settings where
  debug : Nat := 0
  depth : Nat := 1000
  loops : LoopScope := .shared
deriving Repr

/-- What a run notes of its course. -/
inductive Note where
  | call (name : Json) (arguments : List String)
  | global (name : Json) (value : String)
  | declared (name : Json) (value : String)
  | defined (name : Json) (arity : Nat)
  | condition (statement value : String)
  | switched (value branch : String)
deriving DecidableEq, Repr

namespace Note

/-- The least debug level at which the note is made. -/
def level : Note → Nat
  | call .. => 1
  | global .. | declared .. | defined .. => 2
  | condition .. | switched .. => 3

def text : Note → String
  | call name arguments => "call " ++ name.shown ++ "(" ++ ", ".intercalate arguments ++ ")"
  | global name value => s!"global {name.shown} = {value}"
  | declared name value => s!"declare {name.shown} = {value}"
  | defined name arity => s!"define function {name.shown}/{arity}"
  | condition statement value => s!"{statement} condition -> {value}"
  | switched value branch => s!"switch {value} -> {branch}"

end Note

/-- What a run has made, printed and noted. -/
structure World where
  store : Store := {}
  output : String := ""
  notes : Array Note := #[]
deriving Repr

namespace World

def print (w : World) (text : String) : World :=
  { w with output := w.output ++ text ++ "\n" }

/-- The notes, a line each. -/
def log (w : World) : String :=
  w.notes.foldl (fun t n => t ++ n.text ++ "\n") ""

def text (w : World) (settings : Settings) (v : Value) : Except Fault String :=
  w.store.lists.text settings.depth v

def note (w : World) (n : Note) : World :=
  { w with notes := w.notes.push n }

/-- A new block inside another. -/
def openBlock (w : World) (env : Env) : World × Env :=
  let (store, inner) := w.store.openBlock env
  ({ w with store := store }, inner)

/-- A new variable of a block, with the type and the declaration that the checker found. -/
def add (w : World) (env : Env) (key : Key) (name : Json) (binding : Option Binding)
    (isMutable : Bool) (value : Value) : World :=
  { w with
    store := w.store.add env key ⟨name, binding.map (·.type), isMutable, value⟩
      (binding.map (·.id)) }

/-- A variable for a name that must be free in its block. -/
def addFree (w : World) (env : Env) (name : Json) (binding : Option Binding) (isMutable : Bool)
    (value : Value) (subject : Option (Node Label)) : Except Fault World := do
  let key ← name.key
  if w.store.taken env key then throw (.ofCause (.duplicateVariable .run name) subject)
  return w.add env key name binding isMutable value

/-- Arguments become variables of a block, in turn, until a name is none or is taken already. -/
def bind (w : World) (env : Env) (found : Annotations) :
    List (Declared Label × Value) → World × Option Fault
  | [] => (w, none)
  | (p, v) :: rest =>
    match p.name.key with
    | .error f => (w, some f)
    | .ok key =>
      if w.store.taken env key then (w, some (.ofCause (.duplicateVariable .run p.name) none))
      else bind (w.add env key p.name (found.of p.label).binding true v) env found rest

end World

end PlcLang
