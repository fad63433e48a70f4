import PlcLang.Checker.Statement

namespace PlcLang

/-- Checks a global. Its type name is looked at before its value. -/
def Node.checkGlobal (check : Nat) (Γ : Context) (node : Node Label) : Checking Context := do
  let d ← required node.declared?
  let declared ← resolveOptional d.typeName node
  let found ← match ← required node.content? with
    | .node value => pure (some (← value.checkExpression Γ))
    | _ => pure none
  let type ← declaredType declared found (.untypedGlobal d.name) node
  match node with
  | .global label name isMutable _ _ => Γ.declare check label name type isMutable node
  | _ => throw (.unfit .missingPart)

/-- The parameters of a function with their types. -/
def Node.headerTypes (function : Node Label) :
    List (Node Label) → Except Fault (List (Declared Label × Ty))
  | [] => .ok []
  | p :: rest => do
    let d ← required p.declared?
    let t ← resolveType d.typeName function
    return (d, t) :: (← function.headerTypes rest)

/-- Parameters are variables of the function's own block. -/
def Node.checkParameters (check : Nat) (function : Node Label) (Γ : Context) :
    List (Declared Label × Ty) → Checking Context
  | [] => return Γ
  | (p, t) :: rest => do
    let Γ' ← Γ.declare check p.label p.name t true function
    function.checkParameters check Γ' rest

/-- A function is defined before its body is walked, so that it may call itself. -/
def Node.checkFunction (check : Nat) (Γ : Context) : Node Label → Checking Context
  | .function label name parameters returnTypeName statements => do
    let node := Node.function label name parameters returnTypeName statements
    let parameters ← node.headerTypes (← parameters.items)
    let returns := (← resolveOptional returnTypeName node).getD .nil
    let Γ' ← Γ.declareFunction check label name (parameters.map (·.2)) returns node
    let inside ← node.checkParameters check Γ'.child parameters
    statements.checkBlock check returns inside
    return Γ'
  | _ => throw (.unfit .missingPart)

/-- Whether a node is the function that a program starts with. A result type given to it is
Integer. -/
def Node.checkMain (node : Node Label) : Except Fault Bool := do
  let name ← required node.name?
  if name ≠ .string "main" then return false
  match node with
  | .function _ _ parameters returnTypeName _ =>
    if !parameters.isEmpty then return false
    if returnTypeName ≠ .null ∧ returnTypeName ≠ .string Ty.integer.name then
      throw (.ofCause .mainResult node)
    return true
  | _ => throw (.unfit .missingPart)

def Node.checkGlobals (check : Nat) (Γ : Context) : List (Node Label) → Checking Context
  | [] => return Γ
  | g :: rest => do
    let Γ' ← g.checkGlobal check Γ
    Node.checkGlobals check Γ' rest

/-- Checks functions in turn; also tells whether one of them is `main`. -/
def Node.checkFunctions (check : Nat) (Γ : Context) : List (Node Label) → Checking (Context × Bool)
  | [] => return (Γ, false)
  | f :: rest => do
    let isMain ← f.checkMain
    let Γ' ← f.checkFunction check Γ
    let (Γ'', found) ← Node.checkFunctions check Γ' rest
    return (Γ'', isMain || found)

/-- The block of names that every program starts from. -/
def StaticBlock.standard : StaticBlock :=
  ⟨[], [((.text "print", 1), ⟨none, .string "print", [.any], .nil⟩)]⟩

/-- Checks the globals, then the functions, and last that there is a `main`. Gives the names in
scope at the end, those of the program in front of the outer ones. -/
def Node.checkProgram (check : Nat) (outer : List StaticBlock) : Node Label → Checking Context
  | .source globals functions => do
    let Γ ← Node.checkGlobals check ⟨.standard, outer⟩ (← globals.items)
    let (Γ', found) ← Node.checkFunctions check Γ (← functions.items)
    if !found then throw (.ofCause (.noMain .check) (Node.source globals functions))
    return Γ'
  | _ => throw (.unfit .missingPart)

/-- Checks a tree; what is found of its nodes stays known also when there is a fault. -/
def Annotated.check (number : Nat) (outer : List StaticBlock) (a : Annotated) :
    Except Fault Context × Annotations :=
  (a.tree.checkProgram number outer).run.run a.found

end PlcLang
