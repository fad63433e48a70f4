import PlcLang.Value.Text
import PlcLang.Decimal.Arithmetic

namespace PlcLang

namespace Integer

/-- The quotient cut off toward zero. -/
def divide (a b : Int) : Int :=
  let q : Int := a.natAbs / b.natAbs
  if (a < 0) ≠ (b < 0) then -q else q

/-- Multiplies `result` by a power of `base`, squaring the base and halving the exponent. -/
def powerFrom (result base : Int) (exponent : Nat) : Int :=
  if h : exponent = 0 then result
  else
    powerFrom (if exponent % 2 = 1 then result * base else result) (base * base) (exponent / 2)
termination_by exponent
decreasing_by exact Nat.div_lt_self (Nat.pos_of_ne_zero h) (by decide)

/-- A power with a whole exponent; a negative one counts as zero. -/
def power (base exponent : Int) : Int :=
  powerFrom 1 base exponent.toNat

end Integer

/-- The order of what two characters hold. -/
def characterOrder (a b : Json) : Except Fault Ordering :=
  match a.order? b with
  | some o => .ok o
  | none => .error (.unfit .unordered)

/-- The order of two values of one comparable kind. -/
def Value.order : Value → Value → Option (Except Fault Ordering)
  | .integer a, .integer b => some (.ok (compare a b))
  | .decimal a, .decimal b => some ((a.order b).mapError .decimal)
  | .character a, .character b => some (characterOrder a b)
  | .string a, .string b => some (.ok (compare a b))
  | _, _ => none

/-- Sum, difference, product or quotient of two integers. -/
def integerResult (op : Operator) (a b : Int) (subject : Option (Node Label)) :
    Except Fault Value :=
  match op with
  | .plus => .ok (.integer (a + b))
  | .minus => .ok (.integer (a - b))
  | .times => .ok (.integer (a * b))
  | _ =>
    if b = 0 then .error (.ofCause .divisionByZero subject) else .ok (.integer (Integer.divide a b))

/-- Sum, difference, product or quotient of two decimals. Only the quotient is rounded. -/
def decimalResult (op : Operator) (a b : Decimal) (subject : Option (Node Label)) :
    Except Fault Value :=
  let kept (r : Except Decimal.Signal Decimal) : Except Fault Value :=
    (r.map .decimal).mapError .decimal
  match op with
  | .plus => kept (a.add .exact b)
  | .minus => kept (a.sub .exact b)
  | .times => kept (a.mul .exact b)
  | _ => if b.isZero then .error (.ofCause .divisionByZero subject) else kept (a.div .quotient b)

/-- Arithmetic takes two integers or two decimals. -/
def arithmetic (op : Operator) (a b : Value) (subject : Option (Node Label)) : Except Fault Value :=
  match a, b with
  | .integer m, .integer n => integerResult op m n subject
  | .decimal m, .decimal n => decimalResult op m n subject
  | _, _ => .error (.ofCause (.unsupportedOperands op a.tag b.tag) subject)

/-- Whether two values stand in an order. -/
def Value.ordered (wanted : Ordering) (a b : Value) (subject : Option (Node Label)) :
    Except Fault Value :=
  match a.order b with
  | some order => order.map fun o => .boolean (o == wanted)
  | none => .error (.ofCause (.incomparable a.tag b.tag) subject)

/-- The result of an operator on two values. `&&` and `||` are none: they do not always have two
values. -/
def Lists.apply (lists : Lists) (depth : Nat) (op : Operator) (a b : Value)
    (subject : Option (Node Label)) : Except Fault Value :=
  match op with
  | .equal => (lists.equal depth a b).map .boolean
  | .unequal => (lists.equal depth a b).map fun r => .boolean !r
  | .less => Value.ordered .lt a b subject
  | .greater => Value.ordered .gt a b subject
  | .plus =>
    if a.tag = .string ∨ b.tag = .string then do
      let left ← lists.text depth a
      let right ← lists.text depth b
      return .string (left ++ right)
    else arithmetic op a b subject
  | .minus | .times | .divide => arithmetic op a b subject
  | .power =>
    match a, b with
    | .integer base, .integer exponent =>
      if exponent < 0 then .error (.ofInteger exponent .negativeExponent subject)
      else .ok (.integer (Integer.power base exponent))
    | _, _ => .error (.ofCause (.unsupportedOperands op a.tag b.tag) subject)
  | .and | .or | .other _ => .error (.ofCause (.unknownOperator .run op) subject)

end PlcLang
