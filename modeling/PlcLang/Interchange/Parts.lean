import PlcLang.Json.Basic

namespace PlcLang.Decimal

/-- Why three parts make no decimal. -/
inductive PartsError where
  | length
  | sign
  | special
  | exponent
  | digits
  | tooLarge
deriving DecidableEq, Repr

/-- What is said of the error, if anything. -/
def PartsError.message? : PartsError → Option String
  | .length => some "argument must be a sequence of length 3"
  | .sign => some "sign must be an integer with the value 0 or 1"
  | .special => some "string argument in the third position must be 'F', 'n' or 'N'"
  | .exponent => some "exponent must be an integer"
  | .digits => some "coefficient must be a tuple of digits"
  | .tooLarge => none

/-- A whole number of 64 bits; `wrong` is the error of what is no whole number. -/
def wordOf (wrong : PartsError) (j : Json) : Except PartsError Int :=
  let word (n : Int) : Except PartsError Int :=
    if -9223372036854775808 ≤ n ∧ n ≤ 9223372036854775807 then .ok n else .error .tooLarge
  match j with
  | .integer n => word n
  | .bool b => word (if b then 1 else 0)
  | _ => .error wrong

/-- The sign of a number with the parts: zero stands for plus and one for minus. -/
def signOfPart (j : Json) : Except PartsError String := do
  match ← wordOf .sign j with
  | 0 => return "+"
  | 1 => return "-"
  | _ => throw .sign

/-- The last part is an exponent, or a letter for a number that has none: its name and its
exponent. -/
def kindOfPart : Json → Except PartsError (String × Option Int)
  | .string "F" => .ok ("Inf", none)
  | .string "n" => .ok ("NaN", none)
  | .string "N" => .ok ("sNaN", none)
  | .string _ => .error .special
  | j => (wordOf .exponent j).map fun e => ("", some e)

def digitOfPart (j : Json) : Except PartsError Char := do
  let n ← wordOf .digits j
  if 0 ≤ n ∧ n ≤ 9 then return Char.ofNat ('0'.toNat + n.toNat) else throw .digits

/-- The text of a decimal given by its sign, its digits and its exponent. -/
def partsText : List Json → Except PartsError String
  | [sign, digits, last] => do
    let sign ← signOfPart sign
    let (name, exponent) ← kindOfPart last
    let digits ← match digits with
      | .array items => items.mapM digitOfPart
      | _ => throw .digits
    let digits := String.ofList digits
    match exponent with
    | some e => return sign ++ (if digits.isEmpty then "0" else digits) ++ "E" ++ toString e
    | none => return sign ++ name ++ (if name = "Inf" then "" else digits)
  | _ => .error .length

end PlcLang.Decimal
