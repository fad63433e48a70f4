import PlcLang.Table
import PlcLang.Value.Text

namespace PlcLang

/-- A block of a running program, by number, inside other blocks, the nearest first. -/
structure Env where
  block : Nat
  outer : List Nat
deriving DecidableEq, Repr

/-- The blocks in which a name is looked for. -/
def Env.chain (env : Env) : List Nat :=
  env.block :: env.outer

/-- What a variable holds while a program runs. -/
structure Variable where
  name : Json
  type : Option Ty
  isMutable : Bool
  value : Value
deriving Repr

/-- What a call does: print its argument, or run the statements of a program in a block inside their
home, where the parameters are variables. -/
inductive Body where
  | print
  | code (parameters : List (Declared Label)) (statements : Node Label) (home : Env)
deriving Repr

structure Callable where
  name : Json
  arity : Nat
  parameters : List Ty
  returns : Option Ty
  body : Body
deriving Repr

/-- The names of a block: variables and functions by name, and the variable made for each
declaration that the checker knows. -/
structure Block where
  vars : Table Key Nat := []
  functions : Table (Key × Nat) Nat := []
  bindings : Table DeclId Nat := []
deriving Repr

/-- All that a run has made: blocks, variables, functions and lists, each by number. Nothing is
taken away. -/
structure Store where
  blocks : Array Block := #[]
  vars : Array Variable := #[]
  functions : Array Callable := #[]
  lists : Lists := #[]
deriving Repr

namespace Store

def block (s : Store) (n : Nat) : Block :=
  s.blocks[n]?.getD {}

/-- A new block without surroundings. -/
def openRoot (s : Store) : Store × Env :=
  let n := s.blocks.size
  ({ s with blocks := s.blocks.push {} }, ⟨n, []⟩)

/-- A new block inside another. -/
def openBlock (s : Store) (env : Env) : Store × Env :=
  let n := s.blocks.size
  ({ s with blocks := s.blocks.push {} }, ⟨n, env.chain⟩)

/-- The variable of a name in the nearest block that has one. -/
def findVariable (s : Store) (env : Env) (key : Key) : Option Nat :=
  env.chain.findSome? fun b => (s.block b).vars.lookup key

/-- The variable made for a declaration in the nearest block that has one. -/
def findBinding (s : Store) (env : Env) (id : DeclId) : Option Nat :=
  env.chain.findSome? fun b => (s.block b).bindings.lookup id

def findFunction (s : Store) (env : Env) (key : Key) (arity : Nat) : Option Nat :=
  env.chain.findSome? fun b => (s.block b).functions.lookup (key, arity)

/-- A name with a known declaration is resolved by the declaration, any other by the name. The
outer `none` is a name that is none. -/
def resolve (s : Store) (env : Env) (id : Option DeclId) (name : Json) : Option (Option Nat) :=
  match id with
  | some id => some (s.findBinding env id)
  | none => name.key?.map (s.findVariable env)

/-- The block itself has a variable of that name. -/
def taken (s : Store) (env : Env) (key : Key) : Bool :=
  (s.block env.block).vars.has key

/-- A new variable of a block: from now on its name stands for it there, and so does its
declaration, if known. -/
def add (s : Store) (env : Env) (key : Key) (v : Variable) (id : Option DeclId) : Store :=
  let n := s.vars.size
  { s with
    vars := s.vars.push v
    blocks := s.blocks.modify env.block fun b =>
      { b with
        vars := b.vars.put key n
        bindings := match id with
          | some id => b.bindings.put id n
          | none => b.bindings } }

/-- Defines a variable and gives its number. Unless `redefine` is set the name must be free. -/
def define (s : Store) (env : Env) (key : Key) (v : Variable) (id : Option DeclId)
    (redefine : Bool) : Option (Store × Nat) :=
  let n := s.vars.size
  if s.taken env key && !redefine then none else some (s.add env key v id, n)

def defineFunction (s : Store) (env : Env) (key : Key) (f : Callable) : Option (Store × Nat) :=
  let key := (key, f.arity)
  if (s.block env.block).functions.has key then none
  else
    let n := s.functions.size
    some ({ s with
      functions := s.functions.push f
      blocks := s.blocks.modify env.block fun b =>
        { b with functions := b.functions.put key n } }, n)

def setValue (s : Store) (n : Nat) (v : Value) : Store :=
  { s with vars := s.vars.modify n fun x => { x with value := v } }

def newList (s : Store) (items : Array Value) : Store × Nat :=
  let n := s.lists.size
  ({ s with lists := s.lists.push items }, n)

def setElement (s : Store) (address index : Nat) (v : Value) : Store :=
  { s with lists := s.lists.modify address fun items => items.setIfInBounds index v }

/-- Adds the built-in functions to a block. -/
def addStandard (s : Store) (env : Env) : Store :=
  ((s.defineFunction env (.text "print")
    ⟨.string "print", 1, [.any], some .nil, .print⟩).map (·.1)).getD s

/-- A block with the built-in functions, where a program can run. -/
def openStandard (s : Store) : Store × Env :=
  let (s, env) := s.openRoot
  (s.addStandard env, env)

end Store

end PlcLang
