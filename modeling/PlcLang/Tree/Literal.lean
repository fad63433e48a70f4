import PlcLang.Json.Basic

namespace PlcLang

/-- What a tree from elsewhere may hold in place of the text of a string. -/
inductive Foreign where
  | null
  | real (x : Double)
  | array (items : List Json)
  | object (members : List (String × Json))
deriving DecidableEq, Repr, Inhabited

def Foreign.toJson : Foreign → Json
  | null => .null
  | real x => .real x
  | array items => .array items
  | object members => .object members

/-- What a literal stands for. In a program text a character has a text; a tree from elsewhere may
hold anything for it. -/
inductive Literal where
  | nil
  | boolean (b : Bool)
  | integer (n : Int)
  | decimal (d : Decimal)
  | character (content : Json)
  | string (text : String)
  | foreign (value : Foreign)
deriving DecidableEq, Repr, Inhabited

/-- What a string literal stands for depends on what is given for it. -/
def Literal.ofString : Json → Literal
  | .bool b => .boolean b
  | .integer n => .integer n
  | .string s => .string s
  | .null => .foreign .null
  | .real x => .foreign (.real x)
  | .array items => .foreign (.array items)
  | .object members => .foreign (.object members)

/-- What messages call the value of a literal that stands where a node belongs. -/
def Literal.className : Literal → String
  | .nil => "plc.values.NilVal"
  | .boolean _ => "bool"
  | .integer _ => "int"
  | .decimal _ => "decimal.Decimal"
  | .character _ => "plc.values.CharVal"
  | .string _ => "str"
  | .foreign .null => "NoneType"
  | .foreign (.real _) => "float"
  | .foreign (.array _) => "list"
  | .foreign (.object _) => "dict"

end PlcLang
