import PlcLang.Decimal.Rounding

namespace PlcLang.Decimal

/-- What an operation with a NaN gives: a signaling NaN is refused, and the first quiet one is the
result, with as many digits of its payload as the context has. -/
def nanResult? (ctx : Context) (a b : Decimal) : Option (Except Signal Decimal) :=
  if a.isSignaling || b.isSignaling then some (.error .invalidOperation)
  else
    let kept (negative : Bool) (payload : Nat) : Decimal :=
      .nan negative false
        (if digitCount payload ≤ ctx.precision then payload else payload % tenTo ctx.precision)
    match a, b with
    | .nan negative _ payload, _ => some (.ok (kept negative payload))
    | _, .nan negative _ payload => some (.ok (kept negative payload))
    | _, _ => none

/-- The sign of a sum: a zero is negative only if both its terms are. -/
def sumSign (s t : Bool) (n : Int) : Bool :=
  if n = 0 then s && t else n < 0

/-- The sum, exact as far as the context is wide; its exponent is the smaller of the two, with which
both terms are written out. -/
def add (ctx : Context) (a b : Decimal) : Except Signal Decimal :=
  match nanResult? ctx a b with
  | some r => r
  | none =>
    match a, b with
    | .finite s c e, .finite t d f => do
      let low := min e f
      let left ← shiftUp c (e - low).toNat
      let right ← shiftUp d (f - low).toNat
      let sum := signed s left + signed t right
      round ctx (sumSign s t sum) sum.natAbs low
    | .infinite s, .infinite t => if s = t then .ok a else .error .invalidOperation
    | .infinite _, _ => .ok a
    | _, _ => .ok b

def sub (ctx : Context) (a b : Decimal) : Except Signal Decimal :=
  match nanResult? ctx a b with
  | some r => r
  | none => add ctx a b.opposite

def mul (ctx : Context) (a b : Decimal) : Except Signal Decimal :=
  match nanResult? ctx a b with
  | some r => r
  | none =>
    match a, b with
    | .finite s c e, .finite t d f => round ctx (s != t) (c * d) (e + f)
    | .infinite s, .infinite t => .ok (.infinite (s != t))
    | .infinite s, .finite t d _ =>
      if d = 0 then .error .invalidOperation else .ok (.infinite (s != t))
    | .finite s c _, .infinite t =>
      if c = 0 then .error .invalidOperation else .ok (.infinite (s != t))
    | _, _ => .error .invalidOperation

/-- The quotient of two finite numbers other than zero, rounded once. The dividend is first written
with so many digits that the integer quotient has at least as many as the context keeps; an exact
quotient then gives up its closing zeros down to the exponent of a plain division. -/
def quotient (ctx : Context) (negative : Bool) (c : Nat) (e : Int) (d : Nat) (f : Int) :
    Except Signal Decimal :=
  let places : Int := digitCount d - digitCount c + ctx.precision
  let num := c * tenTo places.toNat
  let den := d * tenTo (-places).toNat
  let low := e - f - places
  let last := max ctx.tiny (low + digitCount (num / den) - ctx.precision)
  let dropped := (last - low).toNat
  if ctx.precision + 2 < dropped then .ok (.finite negative 0 last)
  else
    let unit := den * tenTo dropped
    let (q, x) :=
      if num % unit = 0 then dropZeros (e - f - last).toNat (num / unit) last
      else (nearest num unit, last)
    settle ctx negative q x

def div (ctx : Context) (a b : Decimal) : Except Signal Decimal :=
  match nanResult? ctx a b with
  | some r => r
  | none =>
    match a, b with
    | .finite s c e, .finite t d f =>
      if d = 0 then .error (if c = 0 then .invalidOperation else .divisionByZero)
      else if c = 0 then round ctx (s != t) 0 (e - f)
      else quotient ctx (s != t) c e d f
    | .infinite s, .finite t _ _ => .ok (.infinite (s != t))
    | .finite s _ _, .infinite t => .ok (.finite (s != t) 0 ctx.tiny)
    | _, _ => .error .invalidOperation

/-- The negative as arithmetic gives it: rounded to the context, and zero without a sign. -/
def neg (ctx : Context) : Decimal → Except Signal Decimal
  | .finite negative c e => round ctx (!negative && c != 0) c e
  | .infinite negative => .ok (.infinite (!negative))
  | a => (nanResult? ctx a a).getD (.ok a)

end PlcLang.Decimal
