import PlcLang.Checker.Context

namespace PlcLang

/-- A walk of the checker. It ends at the first fault, and what it has found of the nodes before
stays known. -/
abbrev Checking := ExceptT Fault (StateM Annotations)

/-- Something is found out about a node. -/
def annotate (label : Label) (change : Annotation → Annotation) : Checking Unit :=
  modify fun found => found.modify label change

/-- The type of an expression is found. -/
def annotateType (label : Label) (t : Ty) : Checking Ty := do
  annotate label fun a => { a with type := t }
  return t

def requireAssignable (target source : Ty) (subject : Node Label) : Except Fault Unit :=
  if target.accepts source then .ok () else .error (.ofCause (.notAssignable target source) subject)

/-- The type of a name. -/
def resolveType (name : Json) (subject : Node Label) : Except Fault Ty := do
  let _ ← name.key
  match Ty.ofJson? name with
  | some t => return t
  | none => throw (.ofCause (.unknownType name) subject)

/-- A literal is limited where no operator is: integers to 32 bits, decimals to the range of
doubles. -/
def Literal.check (l : Literal) (subject : Node Label) : Except Fault Ty :=
  match l with
  | nil => .ok .nil
  | boolean _ => .ok .boolean
  | integer n =>
    if -2147483648 ≤ n ∧ n ≤ 2147483647 then .ok .integer
    else .error (.ofInteger n .integerRange subject)
  | decimal d =>
    if d.fitsDouble then .ok .decimal else .error (.ofCause (.decimalRange d) subject)
  | character _ => .ok .character
  | string _ => .ok .string
  | foreign value => .error (.ofCause (.unsupportedLiteral value) subject)

/-- Both operands of an arithmetic operator have one type, integer or decimal. -/
def numericType (op : Operator) (left right : Node Label) (l r : Ty) : Except Fault Ty :=
  if l = .integer ∨ l = .decimal then do
    requireAssignable l r right
    return l
  else .error (.ofCause (.operandType op l) left)

/-- The type of a binary expression, from the types of its operands. -/
def binaryType (op : Operator) (left right node : Node Label) (l r : Ty) : Except Fault Ty :=
  match op with
  | .and | .or => do
    requireAssignable .boolean l left
    requireAssignable .boolean r right
    return .boolean
  | .less | .greater | .equal | .unequal => do
    requireAssignable .comparable l left
    requireAssignable .comparable r right
    if l = r then return .boolean else throw (.ofCause (.incomparableTypes l r) node)
  | .plus => if l = .string ∨ r = .string then .ok .string else numericType op left right l r
  | .minus | .times | .divide => numericType op left right l r
  | .power => do
    requireAssignable .integer l left
    requireAssignable .integer r right
    return .integer
  | .other _ => .error (.ofCause (.unknownOperator .check op) node)

/-- The variable that a name stands for. -/
def Context.bindingOf (Γ : Context) (name : Json) (subject : Node Label) :
    Except Fault Binding := do
  match Γ.findVariable (← name.key) with
  | some b => return b
  | none => throw (.ofCause (.undefinedVariable .check name) subject)

/-- The function that a name stands for in a call. -/
def Context.signatureOf (Γ : Context) (name : Json) (arity : Nat) (subject : Node Label) :
    Except Fault Signature := do
  match Γ.findFunction (← name.key) arity with
  | some f => return f
  | none => throw (.ofCause (.undefinedFunction .check name arity) subject)

mutual
/-- The type of an expression, found from left to right. -/
def Node.checkExpression (Γ : Context) : Node Label → Checking Ty
  | .literal label value => do
    annotateType label (← value.check (.literal label value))
  | .group label inner => do
    if !inner.isBinary then throw (.ofCause .groupNotBinary (Node.group label inner))
    annotateType label (← inner.checkExpression Γ)
  | .binary label op left right => do
    let l ← left.checkExpression Γ
    let r ← right.checkExpression Γ
    annotateType label (← binaryType op left right (.binary label op left right) l r)
  | .access label name offset => do
    if !offset.isAbsent then
      let t ← offset.checkExpression Γ
      if t ≠ .integer then throw (.ofCause (.indexType t) (Node.access label name offset))
    let b ← Γ.bindingOf name (.access label name offset)
    annotate label fun a => { a with binding := b }
    annotateType label b.type
  | .call label name (.list arguments) => do
    let f ← Γ.signatureOf name arguments.length (.call label name (.list arguments))
    Node.checkArguments Γ arguments f.parameters
    annotate label fun a => { a with signature := f }
    annotateType label f.returns
  | .call _ _ _ => throw (.unfit .notAList)
  | .listLiteral label .absent => annotateType label .any
  | .listLiteral label (.list elements) => do
    annotateType label (← Node.checkElements Γ elements)
  | .listLiteral _ _ => throw (.unfit .notAList)
  | node => throw (.unexpectedNode .checkExpression node.className)

/-- Arguments are checked one by one, each against its parameter. -/
def Node.checkArguments (Γ : Context) : List (Node Label) → List Ty → Checking Unit
  | argument :: rest, p :: parameters => do
    requireAssignable p (← argument.checkExpression Γ) argument
    Node.checkArguments Γ rest parameters
  | _, _ => return

/-- The type of a list is that of its first element; the others may have any types. -/
def Node.checkElements (Γ : Context) : List (Node Label) → Checking Ty
  | [] => return .any
  | first :: rest => do
    let t ← first.checkExpression Γ
    let _ ← Node.checkElements Γ rest
    return t
end

end PlcLang
