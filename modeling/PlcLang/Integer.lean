import PlcLang.Decimal.Text
import PlcLang.Text.Display

namespace PlcLang.Integer

/-- The most digits an integer may have where it is turned into text or read from it. -/
def digitLimit : Nat := 4300

/-- The text of an integer, unless it has too many digits. -/
def text? (n : Int) : Option String :=
  if digitCount n.natAbs ≤ digitLimit then some (toString n) else none

/-- Why a text is no integer. -/
inductive ReadError where
  | malformed (text : String)
  | long (digits : Nat)
deriving DecidableEq, Repr

/-- What is said of an integer with too many digits. -/
def longText : String :=
  "Exceeds the limit (4300 digits) for integer string conversion; " ++
    "use sys.set_int_max_str_digits() to increase the limit"

def ReadError.message : ReadError → String
  | .malformed text =>
    "invalid literal for int() with base 10: " ++ ((Text.display text).take 200).toString
  | .long digits =>
    "Exceeds the limit (4300 digits) for integer string conversion: " ++
      s!"value has {digits} digits; use sys.set_int_max_str_digits() to increase the limit"

/-- White space around an integer: of the controls, only those that move the cursor. -/
def isSpace (c : Char) : Bool :=
  Text.isBlank c && !(28 ≤ c.toNat && c.toNat ≤ 31)

/-- Digits of any script with single underscores between them: a run of both that begins and ends
with a digit. -/
def digitsOf? : List Char → Option (List Nat)
  | [] => none
  | [c] => (Text.digit? c).map ([·])
  | c :: '_' :: rest =>
    match Text.digit? c, digitsOf? rest with
    | some d, some ds => some (d :: ds)
    | _, _ => none
  | c :: rest =>
    match Text.digit? c, digitsOf? rest with
    | some d, some ds => some (d :: ds)
    | _, _ => none

/-- Reads an integer: white space around it, one sign, and digits. -/
def ofText (text : String) : Except ReadError Int :=
  let (negative, cs) := Decimal.takeSign (text.toList.dropWhile isSpace)
  let isPart (c : Char) : Bool := c = '_' || (Text.digit? c).isSome
  match digitsOf? (cs.takeWhile isPart) with
  | none => .error (.malformed text)
  | some ds =>
    if digitLimit < ds.length then .error (.long ds.length)
    else if (cs.dropWhile isPart).all isSpace then
      .ok (Decimal.signed negative (digitsValue ds))
    else .error (.malformed text)

end PlcLang.Integer
