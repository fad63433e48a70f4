import PlcLang.Json.Basic

namespace PlcLang

/-- What tells names apart. A program text has texts for names; a tree from elsewhere may also have
null or a number, which counts by what it is worth. -/
inductive Key where
  | text (s : String)
  | null
  | whole (n : Int)
  | real (x : Double)
deriving DecidableEq, Repr

/-- Arrays and objects are no names. -/
def Json.key? : Json → Option Key
  | .string s => some (.text s)
  | .null => some .null
  | .bool b => some (.whole (if b then 1 else 0))
  | .integer n => some (.whole n)
  | .real x => some (match x.whole? with | some n => .whole n | none => .real x)
  | .array _ => none
  | .object _ => none

end PlcLang
