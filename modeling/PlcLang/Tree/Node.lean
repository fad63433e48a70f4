import PlcLang.Tree.Literal
import PlcLang.Tree.Operator

namespace PlcLang

/-- A tree as it is exchanged, checked and run. Every slot may hold any node, a list of nodes or
nothing, and a name may be any JSON value: what does not fit shows only where it is used. Nodes that
the checker finds something out about carry a label. -/
inductive Node (α : Type) where
  | absent
  | list (items : List (Node α))
  | source (globals functions : Node α)
  | global (label : α) (name : Json) (isMutable : Bool) (typeName : Json) (value : Node α)
  | parameter (label : α) (name typeName : Json)
  | function (label : α) (name : Json) (parameters : Node α) (returnTypeName : Json)
      (statements : Node α)
  | expressionStmt (expression : Node α)
  | declaration (label : α) (name typeName : Json) (value : Node α)
  | assignment (receiver value : Node α)
  | conditional (condition thenStatements elseStatements : Node α)
  | case (value statements : Node α)
  | switch (condition cases : Node α)
  | loop (condition statements : Node α)
  | ret (value : Node α)
  | literal (label : α) (value : Literal)
  | group (label : α) (expression : Node α)
  | binary (label : α) (op : Operator) (left right : Node α)
  | access (label : α) (name : Json) (offset : Node α)
  | call (label : α) (name : Json) (arguments : Node α)
  | listLiteral (label : α) (elements : Node α)
deriving Repr, Inhabited

/-- Tells the labelled nodes of all trees of a session apart. -/
abbrev Label := Nat

namespace Node

variable {α : Type}

/-- The value of the member `type`. -/
def kind? : Node α → Option String
  | absent => none
  | list _ => none
  | source .. => some "Source"
  | global .. => some "Global"
  | parameter .. => some "Parameter"
  | function .. => some "Function"
  | expressionStmt _ => some "ExpressionStmt"
  | declaration .. => some "Declaration"
  | assignment .. => some "Assignment"
  | conditional .. => some "If"
  | case .. => some "Case"
  | switch .. => some "Switch"
  | loop .. => some "While"
  | ret _ => some "Return"
  | literal .. => some "Literal"
  | group .. => some "Group"
  | binary .. => some "Binary"
  | access .. => some "Access"
  | call .. => some "Call"
  | listLiteral .. => some "ListLiteral"

/-- What messages call the node. -/
def className : Node α → String
  | absent => "NoneType"
  | list _ => "list"
  | n => "plc.ast." ++ n.kind?.getD ""

def isAbsent : Node α → Bool
  | absent => true
  | _ => false

def isCall : Node α → Bool
  | call .. => true
  | _ => false

def isBinary : Node α → Bool
  | binary .. => true
  | _ => false

def isAccess : Node α → Bool
  | access .. => true
  | _ => false

/-- A slot without any nodes: nothing, or an empty list. -/
def isEmpty : Node α → Bool
  | absent => true
  | list items => items.isEmpty
  | _ => false

/-- The name of a node that has one. -/
def name? : Node α → Option Json
  | global _ name .. => some name
  | parameter _ name _ => some name
  | function _ name .. => some name
  | declaration _ name .. => some name
  | access _ name _ => some name
  | call _ name _ => some name
  | _ => none

end Node

/-- What a node declares: a name of a type. -/
structure Declared (α : Type) where
  label : α
  name : Json
  typeName : Json
deriving Repr

/-- Globals, parameters and declarations may stand for each other where only the name and its type
count. -/
def Node.declared? {α : Type} : Node α → Option (Declared α)
  | .global label name _ typeName _ => some ⟨label, name, typeName⟩
  | .parameter label name typeName => some ⟨label, name, typeName⟩
  | .declaration label name typeName _ => some ⟨label, name, typeName⟩
  | _ => none

/-- What a node has for a value: nothing, a node, or the value of a literal itself. -/
inductive Content (α : Type) where
  | nothing
  | node (n : Node α)
  | bare (value : Literal)
deriving Repr

namespace Content

variable {α : Type}

def ofNode : Node α → Content α
  | .absent => nothing
  | n => node n

def ofLiteral : Literal → Content α
  | .foreign .null => nothing
  | value => bare value

end Content

/-- The value of a node that has one. -/
def Node.content? {α : Type} : Node α → Option (Content α)
  | .global _ _ _ _ value => some (.ofNode value)
  | .declaration _ _ _ value => some (.ofNode value)
  | .assignment _ value => some (.ofNode value)
  | .case value _ => some (.ofNode value)
  | .ret value => some (.ofNode value)
  | .literal _ value => some (.ofLiteral value)
  | _ => none

/-- The next label. -/
def freshLabel : StateM Label Label :=
  modifyGet fun l => (l, l + 1)

mutual
/-- The same tree with labels of its own, given out in the order of the nodes. -/
def Node.withLabels {α : Type} : Node α → StateM Label (Node Label)
  | .absent => return .absent
  | .list items => return .list (← Node.allWithLabels items)
  | .source globals functions => return .source (← globals.withLabels) (← functions.withLabels)
  | .global _ name isMutable typeName value =>
    return .global (← freshLabel) name isMutable typeName (← value.withLabels)
  | .parameter _ name typeName => return .parameter (← freshLabel) name typeName
  | .function _ name parameters returnTypeName statements =>
    return .function (← freshLabel) name (← parameters.withLabels) returnTypeName
      (← statements.withLabels)
  | .expressionStmt expression => return .expressionStmt (← expression.withLabels)
  | .declaration _ name typeName value =>
    return .declaration (← freshLabel) name typeName (← value.withLabels)
  | .assignment receiver value => return .assignment (← receiver.withLabels) (← value.withLabels)
  | .conditional condition thenStatements elseStatements =>
    return .conditional (← condition.withLabels) (← thenStatements.withLabels)
      (← elseStatements.withLabels)
  | .case value statements => return .case (← value.withLabels) (← statements.withLabels)
  | .switch condition cases => return .switch (← condition.withLabels) (← cases.withLabels)
  | .loop condition statements => return .loop (← condition.withLabels) (← statements.withLabels)
  | .ret value => return .ret (← value.withLabels)
  | .literal _ value => return .literal (← freshLabel) value
  | .group _ expression => return .group (← freshLabel) (← expression.withLabels)
  | .binary _ op left right =>
    return .binary (← freshLabel) op (← left.withLabels) (← right.withLabels)
  | .access _ name offset => return .access (← freshLabel) name (← offset.withLabels)
  | .call _ name arguments => return .call (← freshLabel) name (← arguments.withLabels)
  | .listLiteral _ elements => return .listLiteral (← freshLabel) (← elements.withLabels)

def Node.allWithLabels {α : Type} : List (Node α) → StateM Label (List (Node Label))
  | [] => return []
  | n :: rest => return (← n.withLabels) :: (← Node.allWithLabels rest)
end

mutual
/-- The same tree without its labels. -/
def Node.plain {α : Type} : Node α → Node Unit
  | .absent => .absent
  | .list items => .list (Node.allPlain items)
  | .source globals functions => .source globals.plain functions.plain
  | .global _ name isMutable typeName value => .global () name isMutable typeName value.plain
  | .parameter _ name typeName => .parameter () name typeName
  | .function _ name parameters returnTypeName statements =>
    .function () name parameters.plain returnTypeName statements.plain
  | .expressionStmt expression => .expressionStmt expression.plain
  | .declaration _ name typeName value => .declaration () name typeName value.plain
  | .assignment receiver value => .assignment receiver.plain value.plain
  | .conditional condition thenStatements elseStatements =>
    .conditional condition.plain thenStatements.plain elseStatements.plain
  | .case value statements => .case value.plain statements.plain
  | .switch condition cases => .switch condition.plain cases.plain
  | .loop condition statements => .loop condition.plain statements.plain
  | .ret value => .ret value.plain
  | .literal _ value => .literal () value
  | .group _ expression => .group () expression.plain
  | .binary _ op left right => .binary () op left.plain right.plain
  | .access _ name offset => .access () name offset.plain
  | .call _ name arguments => .call () name arguments.plain
  | .listLiteral _ elements => .listLiteral () elements.plain

def Node.allPlain {α : Type} : List (Node α) → List (Node Unit)
  | [] => []
  | n :: rest => n.plain :: Node.allPlain rest
end

end PlcLang
