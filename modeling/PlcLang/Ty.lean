import PlcLang.Json.Basic

namespace PlcLang

/-- The types a program can name. `any` and `comparable` accept others besides themselves. -/
inductive Ty where
  | any | nil | comparable | boolean | integer | decimal | character | string
deriving DecidableEq, Repr, Inhabited

namespace Ty

def name : Ty → String
  | .any => "Any"
  | .nil => "Nil"
  | .comparable => "Comparable"
  | .boolean => "Boolean"
  | .integer => "Integer"
  | .decimal => "Decimal"
  | .character => "Character"
  | .string => "String"

def all : List Ty :=
  [.any, .nil, .comparable, .boolean, .integer, .decimal, .character, .string]

def ofName? (name : String) : Option Ty :=
  all.find? (·.name = name)

/-- The type of a name, which may be any JSON value. -/
def ofJson? : Json → Option Ty
  | .string name => ofName? name
  | _ => none

theorem ofName?_name (t : Ty) : ofName? t.name = some t := by
  cases t <;> decide

/-- Where a value of one type may be stored: `any` takes all but `nil`, `comparable` the types
that have an order, and every other type only itself. -/
def accepts : Ty → Ty → Bool
  | .any, source => source != .nil
  | .comparable, source =>
    source == .comparable || source == .integer || source == .decimal || source == .character ||
      source == .string
  | target, source => target == source

theorem accepts_self (t : Ty) : t.accepts t = true := by
  cases t <;> rfl

end Ty

end PlcLang
