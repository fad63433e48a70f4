import PlcLang.Token.Lexer
import PlcLang.Tree.Literal
import PlcLang.Decimal.Arithmetic

namespace PlcLang

/-- The number that plain digits denote. -/
def digitsNumber (ds : List Char) : Nat :=
  ds.foldl (fun n d => n * 10 + (d.toNat - '0'.toNat)) 0

/-- The exact number that digits with a point denote. -/
def decimalNumber (cs : List Char) : Decimal :=
  let whole := cs.takeWhile isDigit
  let places := (cs.dropWhile isDigit).drop 1
  .finite false (digitsNumber (whole ++ places)) (-places.length)

/-- What stands between the quotes of a lexeme. -/
def quotedText (cs : List Char) : String :=
  match Text.unescape (cs.drop 1).dropLast with
  | .ok body => String.ofList body
  | .error _ => ""

/-- The literal that a single token stands for. -/
def Token.literal? (t : Token) : Option Literal :=
  match t.kind with
  | .keyword .NIL => some .nil
  | .keyword .TRUE => some (.boolean true)
  | .keyword .FALSE => some (.boolean false)
  | .integer => some (.integer (digitsNumber t.text))
  | .decimal => some (.decimal (decimalNumber t.text))
  | .character => some (.character (.string (quotedText t.text)))
  | .string => some (.string (quotedText t.text))
  | _ => none

/-- A number after a minus sign. A decimal is rounded as the sign requires, and zero loses it. -/
def Token.negative? (t : Token) : Option Literal :=
  match t.literal? with
  | some (.integer n) => some (.integer (-n))
  | some (.decimal d) => some (.decimal ((d.neg .sign).toOption.getD d.opposite))
  | _ => none

end PlcLang
