import PlcLang.Json.Double
import PlcLang.Text.Display
import PlcLang.Table

namespace PlcLang

/-- A JSON value. Whole numbers and numbers with a point or an exponent are told apart; the members
of an object keep their order. -/
inductive Json where
  | null
  | bool (b : Bool)
  | integer (n : Int)
  | real (x : Double)
  | string (s : String)
  | array (items : List Json)
  | object (members : List (String × Json))
deriving Repr, Inhabited

namespace Json

mutual
/-- Whether two values are written alike, members in the same order. -/
def alike : Json → Json → Bool
  | .null, .null => true
  | .bool a, .bool b => a == b
  | .integer m, .integer n => m == n
  | .real x, .real y => x == y
  | .string s, .string t => s == t
  | .array as, .array bs => alikeItems as bs
  | .object as, .object bs => alikeMembers as bs
  | _, _ => false

def alikeItems : List Json → List Json → Bool
  | [], [] => true
  | a :: as, b :: bs => a.alike b && alikeItems as bs
  | _, _ => false

def alikeMembers : List (String × Json) → List (String × Json) → Bool
  | [], [] => true
  | (k, a) :: as, (l, b) :: bs => k == l && a.alike b && alikeMembers as bs
  | _, _ => false
end

mutual
theorem alike_iff : (a b : Json) → (a.alike b = true ↔ a = b)
  | .null, b => by cases b <;> simp [alike]
  | .bool _, b => by cases b <;> simp [alike]
  | .integer _, b => by cases b <;> simp [alike]
  | .real _, b => by cases b <;> simp [alike]
  | .string _, b => by cases b <;> simp [alike]
  | .array as, b => by cases b <;> simp [alike, alikeItems_iff as]
  | .object as, b => by cases b <;> simp [alike, alikeMembers_iff as]

theorem alikeItems_iff : (as bs : List Json) → (alikeItems as bs = true ↔ as = bs)
  | [], bs => by cases bs <;> simp [alikeItems]
  | a :: as, bs => by cases bs <;> simp [alikeItems, alike_iff a, alikeItems_iff as]

theorem alikeMembers_iff :
    (as bs : List (String × Json)) → (alikeMembers as bs = true ↔ as = bs)
  | [], bs => by cases bs <;> simp [alikeMembers]
  | (k, a) :: as, bs => by
    cases bs <;> simp [alikeMembers, alike_iff a, alikeMembers_iff as, Prod.ext_iff]
end

instance : DecidableEq Json := fun a b => decidable_of_iff _ (alike_iff a b)

/-- A member of an object; nothing else has members. -/
def member? (key : String) : Json → Option Json
  | .object members => members.lookup key
  | _ => none

/-- Null, false, zero and what is empty count as false. -/
def truthy : Json → Bool
  | .null => false
  | .bool b => b
  | .integer n => n != 0
  | .real (.finite _ m _) => m != 0
  | .real _ => true
  | .string s => !s.isEmpty
  | .array items => !items.isEmpty
  | .object members => !members.isEmpty

mutual
/-- A value inside a message. -/
def display : Json → String
  | .null => "None"
  | .bool b => if b then "True" else "False"
  | .integer n => toString n
  | .real x => x.toText
  | .string s => Text.display s
  | .array items => "[" ++ ", ".intercalate (displayItems items) ++ "]"
  | .object members => "\x7b" ++ ", ".intercalate (displayMembers members) ++ "\x7d"

def displayItems : List Json → List String
  | [] => []
  | j :: rest => display j :: displayItems rest

def displayMembers : List (String × Json) → List String
  | [] => []
  | (k, j) :: rest => (Text.display k ++ ": " ++ display j) :: displayMembers rest
end

/-- A value that is the whole of what a message shows: text stands without quotes. -/
def shown : Json → String
  | .string s => s
  | j => j.display

end Json

end PlcLang
