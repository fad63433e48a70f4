import PlcLang.Checker.Expression

namespace PlcLang

/-- A variable is defined at its node in a check. -/
def Context.declare (Γ : Context) (check : Nat) (label : Label) (name : Json) (type : Ty)
    (isMutable : Bool) (subject : Node Label) : Checking Context := do
  let key ← name.key
  let b : Binding := ⟨⟨check, label⟩, name, type, isMutable⟩
  match Γ.addVariable key b with
  | some Γ =>
    annotate label fun a => { a with binding := b }
    return Γ
  | none => throw (.ofCause (.duplicateVariable .check name) subject)

def Context.declareFunction (Γ : Context) (check : Nat) (label : Label) (name : Json)
    (parameters : List Ty) (returns : Ty) (subject : Node Label) : Checking Context := do
  let key ← name.key
  let f : Signature := ⟨some ⟨check, label⟩, name, parameters, returns⟩
  match Γ.addFunction key f with
  | some Γ =>
    annotate label fun a => { a with signature := f }
    return Γ
  | none => throw (.ofCause (.duplicateFunction .check name parameters.length) subject)

/-- An initial value that may be left out. -/
def Node.checkOptional (Γ : Context) (value : Node Label) : Checking (Option Ty) := do
  if value.isAbsent then return none else return some (← value.checkExpression Γ)

/-- A type name that may be left out. -/
def resolveOptional (typeName : Json) (subject : Node Label) : Except Fault (Option Ty) :=
  if typeName = .null then .ok none else (resolveType typeName subject).map some

/-- The type of a variable: the declared one, which must accept the initial value, else that of the
initial value. -/
def declaredType (declared found : Option Ty) (untyped : Cause) (subject : Node Label) :
    Except Fault Ty :=
  match declared, found with
  | some d, some t => do
    requireAssignable d t subject
    return d
  | some d, none => .ok d
  | none, some t => .ok t
  | none, none => .error (.ofCause untyped subject)

/-- The condition of a branch or a loop is a Boolean. -/
def Node.checkCondition (Γ : Context) (statement : String) (condition : Node Label) :
    Checking Unit := do
  let t ← condition.checkExpression Γ
  if t ≠ .boolean then throw (.ofCause (.condition statement t) condition)

/-- The value of a branch in a switch over a type: only the last branch, the default, has none. -/
def Node.checkCaseValue (Γ : Context) (t : Ty) (last : Bool) (branch : Node Label) :
    Content Label → Checking Unit
  | .nothing => do
    if !last then throw (.ofCause .caseWithoutValue branch)
  | .node value => do
    if last then throw (.ofCause .defaultWithValue branch)
    requireAssignable t (← value.checkExpression Γ) branch
  | .bare value => do
    if last then throw (.ofCause .defaultWithValue branch)
    throw (.unexpectedNode .checkExpression value.className)

mutual
/-- Checks a statement in a function that returns `returns`, from left to right, and gives the names
in scope behind it. -/
def Node.checkStatement (check : Nat) (returns : Ty) (Γ : Context) : Node Label → Checking Context
  | .expressionStmt e => do
    if !e.isCall then throw (.ofCause .notACall (Node.expressionStmt e))
    let _ ← e.checkExpression Γ
    return Γ
  | .declaration label name typeName value => do
    let subject := Node.declaration label name typeName value
    let found ← value.checkOptional Γ
    let declared ← resolveOptional typeName subject
    let type ← declaredType declared found (.untypedVariable name) subject
    Γ.declare check label name type true subject
  | .assignment receiver value => do
    let subject := Node.assignment receiver value
    if !receiver.isAccess then throw (.ofCause .receiverNotAccess subject)
    let target ← receiver.checkExpression Γ
    let source ← value.checkExpression Γ
    requireAssignable target source subject
    return Γ
  | .conditional condition thenStatements elseStatements => do
    condition.checkCondition Γ "if"
    if thenStatements.isEmpty then
      throw (.ofCause .emptyThen (Node.conditional condition thenStatements elseStatements))
    thenStatements.checkBlock check returns Γ.child
    elseStatements.checkBlock check returns Γ.child
    return Γ
  | .switch condition cases => do
    let t ← condition.checkExpression Γ
    if cases.isEmpty then throw (.ofCause .noDefault (Node.switch condition cases))
    cases.checkCases check returns Γ t
    return Γ
  | .loop condition statements => do
    condition.checkCondition Γ "while"
    statements.checkBlock check returns Γ.child
    return Γ
  | .ret value => do
    let t ← value.checkExpression Γ
    requireAssignable returns t (.ret value)
    return Γ
  | node => throw (.unexpectedNode .checkStatement node.className)

/-- The statements in a slot. -/
def Node.checkBlock (check : Nat) (returns : Ty) (Γ : Context) : Node Label → Checking Unit
  | .list statements => do
    let _ ← Node.checkStatements check returns Γ statements
  | _ => throw (.unfit .notAList)

/-- Statements in turn, each in scope of those before it. -/
def Node.checkStatements (check : Nat) (returns : Ty) (Γ : Context) :
    List (Node Label) → Checking Context
  | [] => return Γ
  | statement :: rest => do
    let Γ' ← statement.checkStatement check returns Γ
    Node.checkStatements check returns Γ' rest

/-- The branches in a slot, of a switch over a type. -/
def Node.checkCases (check : Nat) (returns : Ty) (Γ : Context) (t : Ty) :
    Node Label → Checking Unit
  | .list cases => Node.checkEachCase check returns Γ t cases
  | _ => throw (.unfit .notAList)

def Node.checkEachCase (check : Nat) (returns : Ty) (Γ : Context) (t : Ty) :
    List (Node Label) → Checking Unit
  | [] => return
  | branch :: rest => do
    branch.checkCase check returns Γ t rest.isEmpty
    Node.checkEachCase check returns Γ t rest

/-- A branch of a switch; `last` tells whether none follows. -/
def Node.checkCase (check : Nat) (returns : Ty) (Γ : Context) (t : Ty) (last : Bool) :
    Node Label → Checking Unit
  | .case value statements => do
    Node.checkCaseValue Γ t last (.case value statements) (.ofNode value)
    statements.checkBlock check returns Γ.child
  | other => do
    Node.checkCaseValue Γ t last other (← required other.content?)
    throw (.unfit .missingPart)
end

end PlcLang
