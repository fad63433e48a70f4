import PlcLang.Json.Compare
import PlcLang.Problem

namespace PlcLang

/-- Equality of what no program text gives. Kinds are not mixed, and NaN differs from all, also
from itself; inside an array it is the same as itself. -/
def Foreign.equal (a b : Foreign) : Bool :=
  a.tag == b.tag && a != .real .nan && a.toJson.same b.toJson

/-- The elements of all lists, by address. -/
abbrev Lists := Array (Array Value)

namespace Lists

def elements (lists : Lists) (address : Nat) : List Value :=
  (lists[address]?.getD #[]).toList

/-- The text of a value, as printed and as joined to strings. A list of lists may be `depth` deep;
one that contains itself never ends. -/
def text (lists : Lists) : Nat → Value → Except Fault String
  | _, .nil => .ok "NIL"
  | _, .boolean b => .ok (if b then "true" else "false")
  | _, .integer n =>
    match Integer.text? n with
    | some t => .ok t
    | none => .error .longInteger
  | _, .decimal d => .ok d.toText
  | _, .character (.string t) => .ok t
  | _, .character _ => .error (.unfit .notAText)
  | _, .string t => .ok t
  | _, .foreign value => .ok value.toJson.display
  | 0, .list _ => .error .tooDeep
  | depth + 1, .list address => do
    let texts ← (lists.elements address).mapM (lists.text depth)
    return "[" ++ ", ".intercalate texts ++ "]"

/-- Whether a test holds of all pairs, up to the first that fails it. -/
def allPairs (test : Value → Value → Except Fault Bool) :
    List Value → List Value → Except Fault Bool
  | a :: as, b :: bs => do
    if ← test a b then allPairs test as bs else return false
  | _, _ => .ok true

/-- Equality. Values of different kinds differ; lists are compared element by element. -/
def equal (lists : Lists) : Nat → Value → Value → Except Fault Bool
  | _, .nil, .nil => .ok true
  | _, .boolean a, .boolean b => .ok (a == b)
  | _, .integer a, .integer b => .ok (a == b)
  | _, .decimal a, .decimal b => (a.equal b).mapError .decimal
  | _, .character a, .character b => .ok (a.same b)
  | _, .string a, .string b => .ok (a == b)
  | _, .foreign a, .foreign b => .ok (a.equal b)
  | 0, .list _, .list _ => .error .tooDeep
  | depth + 1, .list a, .list b =>
    let as := lists.elements a
    let bs := lists.elements b
    if as.length ≠ bs.length then .ok false else allPairs (lists.equal depth) as bs
  | _, _, _ => .ok false

end Lists

end PlcLang
