import PlcLang.Decimal.Digits

namespace PlcLang

/-- A decimal number keeps its coefficient and exponent: `1.50` and `1.5` are two decimals of one
value. -/
inductive Decimal where
  | finite (negative : Bool) (coefficient : Nat) (exponent : Int)
  | infinite (negative : Bool)
  | nan (negative signaling : Bool) (payload : Nat)
deriving DecidableEq, Repr, Inhabited

namespace Decimal

/-- Why an operation on decimals gives no decimal. -/
inductive Signal where
  | invalidOperation
  | divisionByZero
  | overflow
  /-- A coefficient would have too many digits to be held. -/
  | outOfSpace
deriving DecidableEq, Repr

/-- The integer of a given sign and size. -/
def signed (negative : Bool) (n : Nat) : Int :=
  if negative then -n else n

def ofInt (n : Int) : Decimal :=
  .finite (n < 0) n.natAbs 0

def isFinite : Decimal → Bool
  | .finite .. => true
  | _ => false

def isZero : Decimal → Bool
  | .finite _ 0 _ => true
  | _ => false

def isSignaling : Decimal → Bool
  | .nan _ signaling _ => signaling
  | _ => false

/-- The same number with the other sign. -/
def opposite : Decimal → Decimal
  | .finite negative c e => .finite (!negative) c e
  | .infinite negative => .infinite (!negative)
  | .nan negative signaling payload => .nan (!negative) signaling payload

/-- The exponent of the first digit. -/
def leading (coefficient : Nat) (exponent : Int) : Int :=
  exponent + digitCount coefficient - 1

/-- The most digits that a coefficient can be extended by. -/
def space : Nat := 1000000000

/-- The coefficient written with `places` more digits. Zero needs none. -/
def shiftUp (coefficient places : Nat) : Except Signal Nat :=
  if coefficient = 0 then .ok 0
  else if space < places then .error .outOfSpace
  else .ok (coefficient * tenTo places)

/-- Compares `c * 10 ^ e` with `d * 10 ^ f`, first by their leading digits. -/
def compareMagnitude (c : Nat) (e : Int) (d : Nat) (f : Int) : Ordering :=
  if c = 0 ∨ d = 0 then compare c d
  else if leading c e < leading d f then .lt
  else if leading d f < leading c e then .gt
  else compare (c * tenTo (e - f).toNat) (d * tenTo (f - e).toNat)

/-- The order of two numbers by value; nothing is below or above a NaN. -/
def compare? : Decimal → Decimal → Option Ordering
  | .nan .., _ => none
  | _, .nan .. => none
  | .infinite s, .infinite t => some (compare t.toNat s.toNat)
  | .infinite s, .finite .. => some (if s then .lt else .gt)
  | .finite .., .infinite t => some (if t then .gt else .lt)
  | .finite s c e, .finite t d f =>
    some <|
      if c = 0 ∧ d = 0 then .eq
      else if c = 0 then if t then .gt else .lt
      else if d = 0 then if s then .lt else .gt
      else match s, t with
        | false, false => compareMagnitude c e d f
        | true, true => compareMagnitude d f c e
        | true, false => .lt
        | false, true => .gt

def order (a b : Decimal) : Except Signal Ordering :=
  match a.compare? b with
  | some o => .ok o
  | none => .error .invalidOperation

/-- Equality by value. A quiet NaN equals nothing; a signaling one may not be compared at all. -/
def equal (a b : Decimal) : Except Signal Bool :=
  if a.isSignaling || b.isSignaling then .error .invalidOperation
  else .ok (a.compare? b == some .eq)

/-- Halfway between the greatest binary double and the next power of two: from here on, numbers
round to an infinite double. -/
def doubleLimit : Decimal :=
  .finite false (1 <<< 1024 - 1 <<< 970) 0

/-- The number has a finite double nearest to it. -/
def fitsDouble : Decimal → Bool
  | .finite _ c e => (Decimal.finite false c e).compare? doubleLimit == some .lt
  | _ => false

end Decimal

end PlcLang
