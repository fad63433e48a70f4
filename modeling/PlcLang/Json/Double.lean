import PlcLang.Decimal.Rounding
import PlcLang.Decimal.Text

namespace PlcLang

/-- A binary double: `significand * 2 ^ exponent`, the significand below `2 ^ 53` and at least
`2 ^ 52` unless the exponent is the least one, `-1074`. -/
inductive Double where
  | finite (negative : Bool) (significand : Nat) (exponent : Int)
  | infinite (negative : Bool)
  | nan
deriving DecidableEq, Repr

namespace Double

/-- The double nearest to `num / den`, of two equally near the even one. -/
def ofRatio (negative : Bool) (num den : Nat) : Double :=
  let guess := max (-1074) ((num.log2 : Int) - den.log2 - 53)
  let scaled (e : Int) : Nat × Nat := (num <<< (-e).toNat, den <<< e.toNat)
  let whole (e : Int) : Nat := (scaled e).1 / (scaled e).2
  let e := if whole guess < 1 <<< 53 then guess
    else if whole (guess + 1) < 1 <<< 53 then guess + 1 else guess + 2
  let m := Decimal.nearest (scaled e).1 (scaled e).2
  let (m, e) := if m = 1 <<< 53 then (1 <<< 52, e + 1) else (m, e)
  if 971 < e then .infinite negative else .finite negative m e

/-- The double nearest to `coefficient * 10 ^ exponent`. -/
def ofScientific (negative : Bool) (coefficient : Nat) (exponent : Int) : Double :=
  let first := Decimal.leading coefficient exponent
  if coefficient = 0 ∨ first < -400 then .finite negative 0 (-1074)
  else if 400 < first then .infinite negative
  else ofRatio negative (coefficient * tenTo exponent.toNat) (tenTo (-exponent).toNat)

/-- The size of a finite double as a fraction. -/
def ratio (significand : Nat) (exponent : Int) : Nat × Nat :=
  (significand <<< exponent.toNat, 1 <<< (-exponent).toNat)

/-- The exact decimal of a double, with no more places than it needs. -/
def toDecimal : Double → Decimal
  | .finite negative m e =>
    let places := (-e).toNat
    let (c, dropped) := Decimal.dropZeros places ((m <<< e.toNat) * Nat.pow 5 places) 0
    if m = 0 then .finite negative 0 0 else .finite negative c (dropped - places)
  | .infinite negative => .infinite negative
  | .nan => .nan false false 0

/-- The integer part of a finite double. -/
def toInt? : Double → Option Int
  | .finite negative m e =>
    let (num, den) := ratio m e
    some (Decimal.signed negative (num / den))
  | _ => none

/-- The integer that a double is, if it is one. -/
def whole? : Double → Option Int
  | .finite negative m e =>
    let (num, den) := ratio m e
    if num % den = 0 then some (Decimal.signed negative (num / den)) else none
  | _ => none

/-- The shortest digits that read back, at `digits` digits or more: on each grid the two neighbours
of the value are tried, the nearer first. -/
def shortest (m : Nat) (e : Int) (first : Int) : Nat → Nat → Nat × Int
  | 0, digits => (0, digits)
  | fuel + 1, digits =>
    let (num, den) := ratio m e
    let unit := first - digits + 1
    let num := num * tenTo (-unit).toNat
    let den := den * tenTo unit.toNat
    let near := Decimal.nearest num den
    let low := num / den
    let far := if near = low then low + 1 else low
    if ofScientific false near unit = .finite false m e then (near, unit)
    else if ofScientific false far unit = .finite false m e then (far, unit)
    else shortest m e first fuel (digits + 1)

/-- Positional from `0.0001` to below `10 ^ 16`, always with a digit after the point; otherwise an
exponent of two digits or more. -/
def toText : Double → String
  | .nan => "nan"
  | .infinite negative => Decimal.signText negative ++ "inf"
  | .finite negative m e =>
    if m = 0 then Decimal.signText negative ++ "0.0"
    else
      let (num, den) := ratio m e
      let first : Int := digitCount (num * tenTo 400 / den) - 401
      let (c, x) := shortest m e first 17 1
      let (c, x) := Decimal.dropZeros 17 c x
      let digits := Nat.toDigits 10 c
      let first := x + digits.length - 1
      Decimal.signText negative ++ String.ofList
        (if -4 ≤ first ∧ first < 16 then
          if x ≥ 0 then digits ++ List.replicate x.toNat '0' ++ ['.', '0']
          else Decimal.pointed digits (-x).toNat
        else
          let size := Nat.toDigits 10 first.natAbs
          digits.take 1 ++ (if digits.length ≤ 1 then [] else '.' :: digits.drop 1) ++ 'e' ::
            (if first < 0 then '-' else '+') :: List.replicate (2 - size.length) '0' ++ size)

end Double

end PlcLang
