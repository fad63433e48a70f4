import PlcLang.Parser.Configuration
import PlcLang.Integer

namespace PlcLang

/-- Why a text gives no program: it breaks the grammar, an integer in it has too many digits, or a
decimal in it is out of range. -/
inductive ParseError where
  | broken (e : SyntaxError)
  | longInteger (digits : Nat)
  | decimal (cause : Decimal.Signal)
deriving DecidableEq, Repr

/-- The class of a signal. -/
def Decimal.Signal.name : Decimal.Signal → String
  | .invalidOperation => "InvalidOperation"
  | .divisionByZero => "DivisionByZero"
  | .overflow => "Overflow"
  | .outOfSpace => "MemoryError"

/-- What is said of a literal that has no value. -/
def literalText (cause : String) : String :=
  "Error trying to process rule \"literal\":\n\n" ++ cause

/-- What is said of the error. -/
def ParseError.message : ParseError → String
  | .broken (.token t) =>
    let token := s!"Token({Text.display t.kind.name}, {Text.display (String.ofList t.text)})"
    s!"Unexpected token {token} at line {t.position.line}, column {t.position.column}."
  | .broken (.character c p) =>
    s!"No terminal matches '{c}' in the current parser context, at line {p.line} col {p.column}"
  | .longInteger digits => literalText (Integer.ReadError.long digits).message
  | .decimal cause => literalText s!"[<class 'decimal.{cause.name}'>]"

namespace Parser

/-- Reads tokens to the end of the text; each is looked for where the one before it leads. Also
gives the tokens read, each with its place. The fuel bounds their number. -/
def readTokens : Nat → Configuration → Place → Position → Cursor →
    Except SyntaxError (Program × List (Place × Token))
  | 0, _, _, _, cursor => .error (.character ' ' cursor.position)
  | fuel + 1, c, place, last, cursor =>
    match nextToken place last cursor with
    | .error e => .error e
    | .ok (t, cursor) =>
      if t.kind = .finish then
        match c.program? with
        | some p => .ok (p, [])
        | none => .error (.token t)
      else
        match c.shift t with
        | none => .error (.token t)
        | some (c, next) =>
          (readTokens fuel c next t.position cursor).map fun (p, ts) => (p, (place, t) :: ts)

/-- The program that a text stands for, and its tokens. There are at most as many tokens as
characters. -/
def read (text : List Char) : Except SyntaxError (Program × List (Place × Token)) :=
  readTokens (text.length + 1) {} .start .origin (.ofText text)

end Parser

/-- Why the literal that a token is read as has no value. Behind a sign, a decimal is rounded as
the sign requires. -/
def Token.fault? (place : Place) (t : Token) : Option ParseError :=
  match t.kind with
  | .integer =>
    if Integer.digitLimit < t.text.length then some (.longInteger t.text.length) else none
  | .decimal =>
    let d := decimalNumber t.text
    match if place = .sign then d.kept.bind (·.neg .sign) else d.kept with
    | .ok _ => none
    | .error cause => some (.decimal cause)
  | _ => none

/-- The program that a text stands for. Of several literals without a value the first is
reported. -/
def Program.parse (text : String) : Except ParseError Program :=
  match Parser.read text.toList with
  | .error e => .error (.broken e)
  | .ok (p, tokens) =>
    match tokens.findSome? fun (place, t) => t.fault? place with
    | some e => .error e
    | none => .ok p

end PlcLang
