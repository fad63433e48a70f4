import PlcLang.Json.Basic

namespace PlcLang.Json

/-- Why a text is no document, or holds a whole number with too many digits. -/
inductive ReadError where
  | malformed
  | longInteger (digits : Nat)
deriving DecidableEq, Repr

def isSpace (c : Char) : Bool :=
  c = ' ' || c = '\t' || c = '\n' || c = '\r'

def skipSpace (cs : List Char) : List Char :=
  cs.dropWhile isSpace

/-- The text that must stand next. -/
def expect : List Char → List Char → Option (List Char)
  | [], cs => some cs
  | _ :: _, [] => none
  | k :: ks, c :: cs => if k = c then expect ks cs else none

def hexDigit? (c : Char) : Option Nat :=
  if '0' ≤ c ∧ c ≤ '9' then some (c.toNat - '0'.toNat)
  else if 'a' ≤ c ∧ c ≤ 'f' then some (c.toNat - 'a'.toNat + 10)
  else if 'A' ≤ c ∧ c ≤ 'F' then some (c.toNat - 'A'.toNat + 10)
  else none

/-- Four hexadecimal digits. -/
def readUnit : List Char → Option (Nat × List Char)
  | a :: b :: c :: d :: cs => do
    let a ← hexDigit? a
    let b ← hexDigit? b
    let c ← hexDigit? c
    let d ← hexDigit? d
    some (((a * 16 + b) * 16 + c) * 16 + d, cs)
  | _ => none

/-- A high half of a pair, followed by its low half, makes one character. -/
def joinHalves (high low : Nat) : Option Char :=
  if 0xD800 ≤ high ∧ high < 0xDC00 ∧ 0xDC00 ≤ low ∧ low < 0xE000 then
    some (Char.ofNat (0x10000 + (high - 0xD800) * 0x400 + (low - 0xDC00)))
  else none

/-- A character of its own; half a pair alone is shown as the replacement character. -/
def ofUnit (n : Nat) : Char :=
  if 0xD800 ≤ n ∧ n < 0xE000 then '\ufffd' else Char.ofNat n

/-- The character that an escape begins, after its backslash. -/
def readEscape : List Char → Option (Char × List Char)
  | '"' :: cs => some ('"', cs)
  | '\\' :: cs => some ('\\', cs)
  | '/' :: cs => some ('/', cs)
  | 'b' :: cs => some ('\x08', cs)
  | 'f' :: cs => some ('\x0c', cs)
  | 'n' :: cs => some ('\n', cs)
  | 'r' :: cs => some ('\r', cs)
  | 't' :: cs => some ('\t', cs)
  | 'u' :: cs => do
    let (n, cs) ← readUnit cs
    match cs with
    | '\\' :: 'u' :: cs' =>
      match readUnit cs' with
      | some (low, rest) =>
        match joinHalves n low with
        | some c => some (c, rest)
        | none => some (ofUnit n, cs)
      | none => some (ofUnit n, cs)
    | _ => some (ofUnit n, cs)
  | _ => none

/-- The rest of a string after its opening quote; `done` holds what is read, last first. The bound
is on characters. -/
def readString : Nat → List Char → List Char → Option (String × List Char)
  | 0, _, _ => none
  | _ + 1, _, [] => none
  | fuel + 1, done, c :: cs =>
    if c = '"' then some (String.ofList done.reverse, cs)
    else if c = '\\' then
      match readEscape cs with
      | some (d, rest) => readString fuel (d :: done) rest
      | none => none
    else if c.toNat < 0x20 then none
    else readString fuel (c :: done) cs

def isDigit (c : Char) : Bool :=
  '0' ≤ c && c ≤ '9'

def digitsValue (ds : List Char) : Nat :=
  ds.foldl (fun n d => n * 10 + (d.toNat - '0'.toNat)) 0

/-- Whole digits: no zero stands before another digit. -/
def readWhole : List Char → Option (List Char × List Char)
  | '0' :: cs => some (['0'], cs)
  | cs =>
    match cs.takeWhile isDigit with
    | [] => none
    | ds => some (ds, cs.dropWhile isDigit)

/-- Digits after a point; a point without digits belongs to what follows. -/
def readPlaces : List Char → List Char × List Char
  | '.' :: cs =>
    match cs.takeWhile isDigit with
    | [] => ([], '.' :: cs)
    | ds => (ds, cs.dropWhile isDigit)
  | cs => ([], cs)

def readPower (cs : List Char) : Option Int × List Char :=
  match cs with
  | [] => (none, [])
  | e :: rest =>
    if e = 'e' ∨ e = 'E' then
      let (negative, digits) := Decimal.takeSign rest
      match digits.takeWhile isDigit with
      | [] => (none, cs)
      | ds => (some (Decimal.signed negative (digitsValue ds)), digits.dropWhile isDigit)
    else (none, cs)

/-- The most digits a whole number may have. -/
def digitLimit : Nat := 4300

def readNumber (cs : List Char) : Except ReadError (Json × List Char) :=
  let (negative, cs) := match cs with
    | '-' :: cs => (true, cs)
    | cs => (false, cs)
  match readWhole cs with
  | none =>
    match expect "Infinity".toList cs with
    | some rest => .ok (.real (.infinite negative), rest)
    | none => .error .malformed
  | some (whole, rest) =>
    let (places, rest) := readPlaces rest
    let (power, rest) := readPower rest
    if places.isEmpty && power.isNone then
      if digitLimit < whole.length then .error (.longInteger whole.length)
      else .ok (.integer (Decimal.signed negative (digitsValue whole)), rest)
    else
      .ok (.real (.ofScientific negative (digitsValue (whole ++ places))
        (power.getD 0 - places.length)), rest)

def orMalformed {α : Type} : Option (α × List Char) → Except ReadError (α × List Char)
  | some r => .ok r
  | none => .error .malformed

mutual
/-- One value. The fuel bounds how many characters are read; the length of the text is enough. -/
def readValue : Nat → List Char → Except ReadError (Json × List Char)
  | 0, _ => .error .malformed
  | fuel + 1, cs =>
    match cs with
    | '"' :: rest => do
      let (s, rest) ← orMalformed (readString (fuel + 1) [] rest)
      .ok (.string s, rest)
    | '[' :: rest =>
      match skipSpace rest with
      | ']' :: rest => .ok (.array [], rest)
      | rest => do
        let (items, rest) ← readItems fuel rest
        .ok (.array items, rest)
    | '\x7b' :: rest =>
      match skipSpace rest with
      | '\x7d' :: rest => .ok (.object [], rest)
      | rest => do
        let (members, rest) ← readMembers fuel rest
        .ok (.object (members.foldl (fun ms (k, v) => Table.put k v ms) []), rest)
    | _ =>
      match expect "null".toList cs with
      | some rest => .ok (.null, rest)
      | none =>
      match expect "true".toList cs with
      | some rest => .ok (.bool true, rest)
      | none =>
      match expect "false".toList cs with
      | some rest => .ok (.bool false, rest)
      | none =>
      match expect "NaN".toList cs with
      | some rest => .ok (.real .nan, rest)
      | none => readNumber cs

/-- The items of an array, up to and with its bracket. -/
def readItems : Nat → List Char → Except ReadError (List Json × List Char)
  | 0, _ => .error .malformed
  | fuel + 1, cs => do
    let (item, rest) ← readValue fuel cs
    match skipSpace rest with
    | ']' :: rest => .ok ([item], rest)
    | ',' :: rest => do
      let (items, rest) ← readItems fuel (skipSpace rest)
      .ok (item :: items, rest)
    | _ => .error .malformed

/-- The members of an object, up to and with its brace. -/
def readMembers : Nat → List Char → Except ReadError (List (String × Json) × List Char)
  | 0, _ => .error .malformed
  | fuel + 1, cs =>
    match cs with
    | '"' :: rest => do
      let (key, rest) ← orMalformed (readString (fuel + 1) [] rest)
      match skipSpace rest with
      | ':' :: rest => do
        let (value, rest) ← readValue fuel (skipSpace rest)
        match skipSpace rest with
        | '\x7d' :: rest => .ok ([(key, value)], rest)
        | ',' :: rest => do
          let (members, rest) ← readMembers fuel (skipSpace rest)
          .ok ((key, value) :: members, rest)
        | _ => .error .malformed
      | _ => .error .malformed
    | _ => .error .malformed
end

/-- A document is one value with white space around it. -/
def ofText (text : String) : Except ReadError Json :=
  let cs := skipSpace text.toList
  match readValue (cs.length + 1) cs with
  | .error e => .error e
  | .ok (j, rest) => if (skipSpace rest).isEmpty then .ok j else .error .malformed

end PlcLang.Json
