import PlcLang.Integer
import PlcLang.Tree.Node

namespace PlcLang

/-- Why a tree has no JSON form: a literal of an unknown kind, or one whose integer is too long
to write. -/
inductive EncodeError where
  | unsupported (value : Foreign)
  | longInteger
deriving Repr

def EncodeError.message : EncodeError → String
  | .unsupported value => "Unsupported literal value: " ++ value.toJson.display
  | .longInteger => Integer.longText

/-- A literal is tagged with its kind, since JSON tells neither a character from a string nor a
decimal from a double. -/
def Literal.encode (l : Literal) : Except EncodeError Json :=
  let tagged (kind : String) (value : Json) : Json :=
    .object [("kind", .string kind), ("value", value)]
  match l with
  | .nil => .ok (tagged "Nil" .null)
  | .boolean b => .ok (tagged "Boolean" (.bool b))
  | .integer n =>
    match Integer.text? n with
    | some text => .ok (tagged "Integer" (.string text))
    | none => .error .longInteger
  | .decimal d => .ok (tagged "Decimal" (.string d.toText))
  | .character content => .ok (tagged "Character" content)
  | .string text => .ok (tagged "String" (.string text))
  | .foreign value => .error (.unsupported value)

namespace Node

variable {α : Type}

def tagged (type : String) (members : List (String × Json)) : Json :=
  .object (("type", .string type) :: members)

mutual
/-- The JSON form of a tree. -/
def encode : Node α → Except EncodeError Json
  | absent => .ok .null
  | list items => return .array (← encodeAll items)
  | source globals functions =>
    return tagged "Source" [("globals", ← encode globals), ("functions", ← encode functions)]
  | global _ name isMutable typeName value =>
    return tagged "Global" [("name", name), ("mutable", .bool isMutable), ("type_name", typeName),
      ("value", ← encode value)]
  | parameter _ name typeName => return tagged "Parameter" [("name", name), ("type_name", typeName)]
  | function _ name parameters returnTypeName statements =>
    return tagged "Function" [("name", name), ("parameters", ← encode parameters),
      ("return_type_name", returnTypeName), ("statements", ← encode statements)]
  | expressionStmt expression =>
    return tagged "ExpressionStmt" [("expression", ← encode expression)]
  | declaration _ name typeName value =>
    return tagged "Declaration" [("name", name), ("type_name", typeName), ("value", ← encode value)]
  | assignment receiver value =>
    return tagged "Assignment" [("receiver", ← encode receiver), ("value", ← encode value)]
  | conditional condition thenStatements elseStatements =>
    return tagged "If" [("condition", ← encode condition),
      ("then_statements", ← encode thenStatements), ("else_statements", ← encode elseStatements)]
  | case value statements =>
    return tagged "Case" [("value", ← encode value), ("statements", ← encode statements)]
  | switch condition cases =>
    return tagged "Switch" [("condition", ← encode condition), ("cases", ← encode cases)]
  | loop condition statements =>
    return tagged "While" [("condition", ← encode condition), ("statements", ← encode statements)]
  | ret value => return tagged "Return" [("value", ← encode value)]
  | literal _ value => return tagged "Literal" [("value", ← value.encode)]
  | group _ expression => return tagged "Group" [("expression", ← encode expression)]
  | binary _ op left right =>
    return tagged "Binary" [("operator", op.toJson), ("left", ← encode left),
      ("right", ← encode right)]
  | access _ name offset => return tagged "Access" [("name", name), ("offset", ← encode offset)]
  | call _ name arguments =>
    return tagged "Call" [("name", name), ("arguments", ← encode arguments)]
  | listLiteral _ elements => return tagged "ListLiteral" [("elements", ← encode elements)]

def encodeAll : List (Node α) → Except EncodeError (List Json)
  | [] => .ok []
  | n :: rest => return (← encode n) :: (← encodeAll rest)
end

end Node

end PlcLang
