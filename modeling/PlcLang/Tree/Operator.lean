import PlcLang.Json.Basic

namespace PlcLang

/-- The binary operators; a tree from elsewhere may hold anything in their place. -/
inductive Operator where
  | and | or
  | less | greater | equal | unequal
  | plus | minus
  | times | divide | power
  | other (given : Json)
deriving DecidableEq, Repr

namespace Operator

def all : List Operator :=
  [and, or, less, greater, equal, unequal, plus, minus, times, divide, power]

/-- How an operator is written. -/
def toJson : Operator → Json
  | and => .string "&&"
  | or => .string "||"
  | less => .string "<"
  | greater => .string ">"
  | equal => .string "=="
  | unequal => .string "!="
  | plus => .string "+"
  | minus => .string "-"
  | times => .string "*"
  | divide => .string "/"
  | power => .string "^"
  | other given => given

def text (op : Operator) : String :=
  op.toJson.shown

def ofJson (given : Json) : Operator :=
  (all.find? (·.toJson = given)).getD (other given)

theorem toJson_ofJson (given : Json) : (ofJson given).toJson = given := by
  unfold ofJson
  cases h : all.find? (·.toJson = given) with
  | none => rfl
  | some op => simpa using List.find?_some h

theorem ofJson_toJson {op : Operator} (h : op ∈ all) : ofJson op.toJson = op := by
  revert op
  decide

/-- Higher levels bind tighter; operators of one level group to the left. -/
def level : Operator → Nat
  | and | or => 1
  | less | greater | equal | unequal => 2
  | plus | minus => 3
  | times | divide | power => 4
  | other _ => 0

end Operator

end PlcLang
