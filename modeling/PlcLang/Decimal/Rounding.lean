import PlcLang.Decimal.Basic

namespace PlcLang.Decimal

/-- How many digits a result may keep, and the range of the exponent of its first digit. -/
structure Context where
  precision : Nat
  maxExponent : Int
  minExponent : Int
deriving DecidableEq, Repr

namespace Context

/-- The least exponent a result may have. -/
def tiny (ctx : Context) : Int :=
  ctx.minExponent - ctx.precision + 1

/-- Wide enough that sums, differences and products are exact. -/
def exact : Context :=
  ⟨999999999999999999, 999999999999999999, -999999999999999999⟩

/-- Quotients have 34 digits. -/
def quotient : Context :=
  ⟨34, 999999, -999999⟩

/-- A minus sign before a literal rounds it to 28 digits. -/
def sign : Context :=
  ⟨28, 999999, -999999⟩

end Context

/-- The integer nearest to `num / den`; of two equally near, the even one. -/
def nearest (num den : Nat) : Nat :=
  let q := num / den
  let r := num % den
  if 2 * r < den then q
  else if den < 2 * r then q + 1
  else q + q % 2

/-- Dropping `places` digits at the end of a coefficient, rounded. More places than digits leave
less than a tenth, hence nothing. -/
def dropDigits (coefficient places : Nat) : Nat :=
  if digitCount coefficient < places then 0 else nearest coefficient (tenTo places)

/-- A rounded coefficient that has gained a digit ends in zero; the exponent takes that zero. The
result must not exceed the range. -/
def settle (ctx : Context) (negative : Bool) (coefficient : Nat) (exponent : Int) :
    Except Signal Decimal :=
  let (c, e) := if ctx.precision < digitCount coefficient then (coefficient / 10, exponent + 1)
    else (coefficient, exponent)
  if c ≠ 0 ∧ ctx.maxExponent < leading c e then .error .overflow
  else .ok (.finite negative c e)

/-- The number in a context: no more digits than its precision, no smaller exponent than its least
one. -/
def round (ctx : Context) (negative : Bool) (coefficient : Nat) (exponent : Int) :
    Except Signal Decimal :=
  if coefficient = 0 then .ok (.finite negative 0 (min (max exponent ctx.tiny) ctx.maxExponent))
  else
    let last := max ctx.tiny (leading coefficient exponent - ctx.precision + 1)
    if exponent < last then
      settle ctx negative (dropDigits coefficient (last - exponent).toNat) last
    else settle ctx negative coefficient exponent

/-- Moves zeros at the end of a coefficient into the exponent, at most `most` of them. -/
def dropZeros : Nat → Nat → Int → Nat × Int
  | 0, c, e => (c, e)
  | most + 1, c, e => if c ≠ 0 ∧ c % 10 = 0 then dropZeros most (c / 10) (e + 1) else (c, e)

end PlcLang.Decimal
