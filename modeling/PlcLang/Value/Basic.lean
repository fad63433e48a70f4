import PlcLang.Tree.Literal

namespace PlcLang

/-- The kinds of values. The last four are kinds of what a tree from elsewhere may hold in place of
a text. -/
inductive Tag where
  | nil | boolean | integer | decimal | character | string | list
  | null | real | array | object
deriving DecidableEq, Repr

namespace Tag

def name : Tag → String
  | nil => "Nil"
  | boolean => "Boolean"
  | integer => "Integer"
  | decimal => "Decimal"
  | character => "Character"
  | string => "String"
  | list => "List"
  | null => "NoneType"
  | real => "float"
  | array => "list"
  | object => "dict"

/-- Values of these kinds have an order. -/
def isComparable : Tag → Bool
  | integer | decimal | character | string => true
  | _ => false

end Tag

/-- What a running program computes with. A list is known by its address, so that all who hold it
see its elements change. -/
inductive Value where
  | nil
  | boolean (b : Bool)
  | integer (n : Int)
  | decimal (d : Decimal)
  | character (content : Json)
  | string (text : String)
  | list (address : Nat)
  | foreign (value : Foreign)
deriving DecidableEq, Repr, Inhabited

def Foreign.tag : Foreign → Tag
  | null => .null
  | real _ => .real
  | array _ => .array
  | object _ => .object

def Value.tag : Value → Tag
  | nil => .nil
  | boolean _ => .boolean
  | integer _ => .integer
  | decimal _ => .decimal
  | character _ => .character
  | string _ => .string
  | list _ => .list
  | foreign value => value.tag

/-- The value of a literal. -/
def Literal.value : Literal → Value
  | nil => .nil
  | boolean b => .boolean b
  | integer n => .integer n
  | decimal d => .decimal d
  | character content => .character content
  | string text => .string text
  | foreign value => .foreign value

end PlcLang
