import PlcLang.Json.Basic

namespace PlcLang.Json

/-- The number that a value counts as: true counts as one and false as zero. -/
def number? : Json → Option Decimal
  | .bool b => some (.ofInt (if b then 1 else 0))
  | .integer n => some (.ofInt n)
  | .real x => some x.toDecimal
  | _ => none

/-- Numbers are the same by what they are worth; what is no number is only itself. -/
def sameNumber (m n : Decimal) : Bool :=
  m.compare? n == some .eq || m == n

mutual
/-- Whether two values stand for the same: numbers by what they are worth, and members in any
order. -/
def same : Json → Json → Bool
  | .null, .null => true
  | .string s, .string t => s == t
  | .array as, .array bs => sameItems as bs
  | .object as, .object bs => as.length == bs.length && sameMembers as bs
  | a, b =>
    match a.number?, b.number? with
    | some m, some n => sameNumber m n
    | _, _ => false

def sameItems : List Json → List Json → Bool
  | [], [] => true
  | a :: as, b :: bs => a.same b && sameItems as bs
  | _, _ => false

def sameMembers : List (String × Json) → List (String × Json) → Bool
  | [], _ => true
  | (k, a) :: rest, bs =>
    (match bs.lookup k with
    | some b => a.same b
    | none => false) && sameMembers rest bs
end

mutual
/-- Whether one value stands before another: texts and numbers of their kind do, and arrays by the
first items that differ. Other values have no order. -/
def before? : Json → Json → Option Bool
  | .string s, .string t => some (s < t)
  | .array as, .array bs => itemsBefore? as bs
  | a, b =>
    match a.number?, b.number? with
    | some m, some n => some (m.compare? n == some .lt)
    | _, _ => none

def itemsBefore? : List Json → List Json → Option Bool
  | a :: as, b :: bs => if a.same b then itemsBefore? as bs else a.before? b
  | [], _ :: _ => some true
  | _, [] => some false
end

/-- The order of two values, if they have one. -/
def order? (a b : Json) : Option Ordering :=
  if a.same b then some .eq
  else
    match a.before? b with
    | none => none
    | some true => some .lt
    | some false => (b.before? a).map fun after => if after then .gt else .eq

end PlcLang.Json
