import PlcLang.Decimal.Rounding
import PlcLang.Text.Blank
import PlcLang.Text.Digit

namespace PlcLang.Decimal

def signText (negative : Bool) : String :=
  if negative then "-" else ""

/-- Digits with a point before the last `places` of them; zeros fill up on the left. -/
def pointed (digits : List Char) (places : Nat) : List Char :=
  if places = 0 then digits
  else
    let padded := List.replicate (places + 1 - digits.length) '0' ++ digits
    padded.take (padded.length - places) ++ '.' :: padded.drop (padded.length - places)

/-- The first digit, the others after a point, and the exponent with its sign. -/
def scientific (digits : List Char) (exponent : Int) : List Char :=
  digits.take 1 ++ (if digits.length ≤ 1 then [] else '.' :: digits.drop 1) ++ 'E' ::
    (if exponent < 0 then '-' else '+') :: digitChars exponent.natAbs

/-- The text of a number shows its coefficient and exponent: plain as long as the exponent is not
positive and the first digit stands at most six places after the point, else scientific. -/
def toText : Decimal → String
  | .finite negative c e =>
    let digits := digitChars c
    signText negative ++ String.ofList
      (if e ≤ 0 ∧ -6 ≤ e + digits.length - 1 then pointed digits (-e).toNat
      else scientific digits (e + digits.length - 1))
  | .infinite negative => signText negative ++ "Infinity"
  | .nan negative signaling payload =>
    signText negative ++ (if signaling then "sNaN" else "NaN") ++
      String.ofList (if payload = 0 then [] else digitChars payload)

/-- The digits of any script at the start of a text, and the rest. -/
def takeDigits : List Char → List Nat × List Char
  | [] => ([], [])
  | c :: cs =>
    match Text.digit? c with
    | some d =>
      let (ds, rest) := takeDigits cs
      (d :: ds, rest)
    | none => ([], c :: cs)

/-- An optional sign: whether it is a minus, and the rest. -/
def takeSign : List Char → Bool × List Char
  | '-' :: cs => (true, cs)
  | '+' :: cs => (false, cs)
  | cs => (false, cs)

/-- What stands after the digits of a number: nothing, or an exponent. -/
def readExponent : List Char → Option Int
  | [] => some 0
  | c :: cs =>
    if c.toLower = 'e' then
      let (negative, cs) := takeSign cs
      match takeDigits cs with
      | ([], _) => none
      | (ds, []) => some (if negative then -(digitsValue ds : Int) else digitsValue ds)
      | _ => none
    else none

def readFinite (negative : Bool) (cs : List Char) : Option Decimal :=
  let (whole, rest) := takeDigits cs
  let (part, rest) := match rest with
    | '.' :: rest => takeDigits rest
    | rest => ([], rest)
  if whole.isEmpty && part.isEmpty then none
  else
    (readExponent rest).map fun e =>
      .finite negative (digitsValue (whole ++ part)) (e - part.length)

def readNaN (negative signaling : Bool) (cs : List Char) : Option Decimal :=
  match takeDigits cs with
  | (ds, []) => some (.nan negative signaling (digitsValue ds))
  | _ => none

/-- Words are read in either case. -/
def readUnsigned (negative : Bool) (cs : List Char) : Option Decimal :=
  match cs.map Char.toLower with
  | ['i', 'n', 'f'] => some (.infinite negative)
  | ['i', 'n', 'f', 'i', 'n', 'i', 't', 'y'] => some (.infinite negative)
  | 'n' :: 'a' :: 'n' :: rest => readNaN negative false rest
  | 's' :: 'n' :: 'a' :: 'n' :: rest => readNaN negative true rest
  | _ => readFinite negative cs

/-- The widest context holds the number unchanged. -/
def inRange (d : Decimal) : Bool :=
  match d with
  | .finite negative c e => (round .exact negative c e).toOption == some d
  | _ => true

/-- A number is kept only if it is in range. -/
def kept (d : Decimal) : Except Signal Decimal :=
  if d.inRange then .ok d else .error .invalidOperation

/-- Reads a number. White space around it and underscores anywhere do not count. -/
def ofText (text : String) : Except Signal Decimal :=
  let cs := (Text.trim Text.isBlank text.toList).filter (· ≠ '_')
  let (negative, cs) := takeSign cs
  match readUnsigned negative cs with
  | some d => d.kept
  | none => .error .invalidOperation

end PlcLang.Decimal
