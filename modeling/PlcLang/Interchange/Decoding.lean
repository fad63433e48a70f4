import PlcLang.Integer
import PlcLang.Interchange.Parts
import PlcLang.Tree.Node

namespace PlcLang

/-- Why a JSON value is no tree. -/
inductive DecodeError where
  | notANode
  | missing (key : String)
  | unknownType (type : Json)
  | unknownKind (kind : Json)
  | integer (cause : Integer.ReadError)
  | nanInteger
  | infiniteInteger
  | decimal (cause : Decimal.Signal)
  | decimalParts (cause : Decimal.PartsError)
  | wrongValue
deriving Repr

/-- What is said of the error, if anything. -/
def DecodeError.message? : DecodeError → Option String
  | .notANode => some "Invalid AST object"
  | .missing key => some key
  | .unknownType type => some ("Unknown AST node type: " ++ type.shown)
  | .unknownKind kind => some ("Unknown literal kind: " ++ kind.shown)
  | .integer cause => some cause.message
  | .nanInteger => some "cannot convert float NaN to integer"
  | .decimalParts cause => cause.message?
  | .infiniteInteger | .decimal _ | .wrongValue => none

def Json.required (key : String) (j : Json) : Except DecodeError Json :=
  match j.member? key with
  | some value => .ok value
  | none => .error (.missing key)

/-- An integer may be given as text or as a number; a fraction is cut off. -/
def Json.toInteger : Json → Except DecodeError Int
  | .integer n => .ok n
  | .bool b => .ok (if b then 1 else 0)
  | .string s => (Integer.ofText s).mapError .integer
  | .real x =>
    match x.toInt? with
    | some n => .ok n
    | none => .error (if x = .nan then .nanInteger else .infiniteInteger)
  | _ => .error .wrongValue

/-- A decimal may be given as text, as a number, or by its parts. -/
def Json.toDecimal : Json → Except DecodeError Decimal
  | .integer n => (Decimal.ofInt n).kept.mapError .decimal
  | .bool b => .ok (.ofInt (if b then 1 else 0))
  | .string s => (Decimal.ofText s).mapError .decimal
  | .real x => x.toDecimal.kept.mapError .decimal
  | .array parts =>
    match Decimal.partsText parts with
    | .ok text => (Decimal.ofText text).mapError .decimal
    | .error cause => .error (.decimalParts cause)
  | _ => .error .wrongValue

def Literal.decode (j : Json) : Except DecodeError Literal := do
  match j with
  | .object _ =>
    let kind ← j.required "kind"
    match kind with
    | .string "Nil" => return .nil
    | .string "Boolean" => return .boolean (← j.required "value").truthy
    | .string "Integer" => return .integer (← (← j.required "value").toInteger)
    | .string "Decimal" => return .decimal (← (← j.required "value").toDecimal)
    | .string "Character" => return .character (← j.required "value")
    | .string "String" => return .ofString (← j.required "value")
    | _ => throw (.unknownKind kind)
  | _ => throw .wrongValue

namespace Node

/-- A node from its members: `j` holds them as given and `children` as trees. Only the members that
the type asks for are looked at, in the order of its fields. -/
def assemble (j : Json) (children : List (String × Except DecodeError (Node Unit))) :
    Except DecodeError (Node Unit) := do
  let optional (key : String) : Json := (j.member? key).getD .null
  let child (key : String) : Except DecodeError (Node Unit) :=
    (children.lookup key).getD (.error (.missing key))
  let optionalChild (key : String) : Except DecodeError (Node Unit) :=
    (children.lookup key).getD (.ok .absent)
  match optional "type" with
  | .string "Source" => return .source (← child "globals") (← child "functions")
  | .string "Global" =>
    return .global () (← j.required "name") (← j.required "mutable").truthy (optional "type_name")
      (← optionalChild "value")
  | .string "Parameter" => return .parameter () (← j.required "name") (← j.required "type_name")
  | .string "Function" =>
    return .function () (← j.required "name") (← child "parameters") (optional "return_type_name")
      (← child "statements")
  | .string "ExpressionStmt" => return .expressionStmt (← child "expression")
  | .string "Declaration" =>
    return .declaration () (← j.required "name") (optional "type_name") (← optionalChild "value")
  | .string "Assignment" => return .assignment (← child "receiver") (← child "value")
  | .string "If" =>
    return .conditional (← child "condition") (← child "then_statements")
      (← if (optional "else_statements").truthy then child "else_statements" else .ok (.list []))
  | .string "Case" => return .case (← optionalChild "value") (← child "statements")
  | .string "Switch" => return .switch (← child "condition") (← child "cases")
  | .string "While" => return .loop (← child "condition") (← child "statements")
  | .string "Return" => return .ret (← child "value")
  | .string "Literal" => return .literal () (← Literal.decode (← j.required "value"))
  | .string "Group" => return .group () (← child "expression")
  | .string "Binary" =>
    return .binary () (.ofJson (← j.required "operator")) (← child "left") (← child "right")
  | .string "Access" => return .access () (← j.required "name") (← optionalChild "offset")
  | .string "Call" => return .call () (← j.required "name") (← child "arguments")
  | .string "ListLiteral" => return .listLiteral () (← child "elements")
  | type => throw (.unknownType type)

mutual
/-- The tree that a JSON value stands for. Of several faults the first in the order of the fields
is reported. -/
def decode : Json → Except DecodeError (Node Unit)
  | .null => .ok .absent
  | .array items => return .list (← decodeAll items)
  | .object members => assemble (.object members) (decodeMembers members)
  | _ => .error .notANode

def decodeAll : List Json → Except DecodeError (List (Node Unit))
  | [] => .ok []
  | j :: rest => return (← decode j) :: (← decodeAll rest)

def decodeMembers : List (String × Json) → List (String × Except DecodeError (Node Unit))
  | [] => []
  | (key, j) :: rest => (key, decode j) :: decodeMembers rest
end

end Node

end PlcLang
