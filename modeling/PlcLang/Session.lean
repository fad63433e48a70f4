import PlcLang.Machine.Step

namespace PlcLang

/-- Where the program of a session step runs. -/
inductive Surroundings where
  /-- A new global block, checked on its own. -/
  | fresh
  /-- The block of the session, after the programs that ran there. -/
  | shared
  /-- A new block inside that of the session, which it replaces. -/
  | child
deriving DecidableEq, Repr

/-- Programs that run one after another and may see what earlier ones defined. -/
structure Session where
  store : Store
  /-- The block that programs share. -/
  env : Env
  /-- What the checker knows of the programs that ran there. -/
  known : List StaticBlock
  /-- How many checks were made. -/
  checks : Nat
  /-- What the checks found out about the nodes of all programs. -/
  found : Annotations
deriving Repr

/-- What a program came to. A run that did not start was stopped by the checker. -/
inductive Ending where
  | rejected (f : Fault)
  | ran (env : Env) (world : World) (result : Except Fault Value)
  | unfinished

namespace Session

def start : Session :=
  let (store, env) := Store.openStandard {}
  ⟨store, env, [], 0, #[]⟩

/-- Takes up a tree, which can then be checked and run any number of times. -/
def load (s : Session) (n : Node Unit) : Session × Node Label :=
  let a := n.annotated s.found
  ({ s with found := a.found }, a.tree)

/-- The block a program is to run in. -/
def place (s : Session) : Surroundings → Session × Env
  | .fresh =>
    let (store, env) := s.store.openStandard
    ({ s with store := store }, env)
  | .shared => (s, s.env)
  | .child =>
    let (store, env) := s.store.openBlock s.env
    ({ s with store := store, env := env }, env)

/-- Runs a program in a block. Only a run beside others leaves what the checker knows of it. -/
def run (s : Session) (settings : Settings) (steps : Nat) (env : Env) (around : Surroundings)
    (known : List StaticBlock) (tree : Node Label) : Session × Ending :=
  match Machine.run settings ⟨tree, s.found⟩ steps (.initial env { store := s.store }) with
  | none => (s, .unfinished)
  | some (world, result) =>
    ({ s with
      store := world.store
      known := if around = .fresh then s.known else known }, .ran env world result)

/-- Checks a program, unless told not to, and runs it. -/
def perform (s : Session) (settings : Settings) (steps : Nat) (around : Surroundings)
    (check : Bool) (tree : Node Label) : Session × Ending :=
  let outer := if around = .fresh then [] else s.known
  let number := s.checks
  let (s, env) := { s with checks := number + 1 }.place around
  if check then
    let (outcome, found) := (Annotated.mk tree s.found).check number outer
    let s := { s with found := found }
    match outcome with
    | .error f => (s, .rejected f)
    | .ok Γ => s.run settings steps env around Γ.blocks tree
  else s.run settings steps env around (.standard :: outer) tree

end Session

/-- Checks and runs a program on its own. -/
def Node.perform (settings : Settings) (steps : Nat) (check : Bool) (n : Node Unit) : Ending :=
  let (s, tree) := Session.start.load n
  (s.perform settings steps .fresh check tree).2

end PlcLang
