import PlcLang.Token.Place
import PlcLang.Text.Quoted

namespace PlcLang

/-- A line, and the column of a character in it, both from one. -/
structure Position where
  line : Nat
  column : Nat
deriving DecidableEq, Repr

namespace Position

def origin : Position := ⟨1, 1⟩

/-- The position after a character. -/
def advance (p : Position) (c : Char) : Position :=
  if c = '\n' then ⟨p.line + 1, 1⟩ else ⟨p.line, p.column + 1⟩

end Position

structure Token where
  kind : Terminal
  text : List Char
  position : Position
deriving DecidableEq, Repr

/-- White space between tokens. -/
def isLayout (c : Char) : Bool :=
  c = ' ' || c = '\t' || c = '\x0c' || c = '\r' || c = '\n'

def isLetter (c : Char) : Bool :=
  'A' ≤ c && c ≤ 'Z' || 'a' ≤ c && c ≤ 'z'

def isDigit (c : Char) : Bool :=
  '0' ≤ c && c ≤ '9'

def isNameStart (c : Char) : Bool :=
  isLetter c || c = '@'

def isNamePart (c : Char) : Bool :=
  isLetter c || isDigit c || c = '_' || c = '-'

/-- A lexeme at the start of a text and what follows it. -/
abbrev Match := Option (List Char × List Char)

def matchText : List Char → List Char → Match
  | [], cs => some ([], cs)
  | _ :: _, [] => none
  | k :: ks, c :: cs =>
    if k = c then (matchText ks cs).map fun (lexeme, rest) => (c :: lexeme, rest) else none

/-- A name: a letter or `@`, then letters, digits, `_` and `-`. -/
def matchName : List Char → Match
  | [] => none
  | c :: cs =>
    if isNameStart c then some (c :: cs.takeWhile isNamePart, cs.dropWhile isNamePart) else none

/-- Whole digits; a zero is followed by no other digit. -/
def matchInteger : List Char → Match
  | [] => none
  | c :: cs =>
    if c = '0' then some (['0'], cs)
    else if isDigit c then some (c :: cs.takeWhile isDigit, cs.dropWhile isDigit)
    else none

/-- Whole digits, a point, and at least one digit. -/
def matchDecimal (cs : List Char) : Match :=
  match matchInteger cs with
  | some (whole, '.' :: rest) =>
    match rest.takeWhile isDigit with
    | [] => none
    | places => some (whole ++ '.' :: places, rest.dropWhile isDigit)
  | _ => none

/-- One character or escape between single quotes. -/
def matchCharacter : List Char → Match
  | '\'' :: cs =>
    match Text.unit? '\'' cs with
    | some (body, '\'' :: rest) => some ('\'' :: body ++ ['\''], rest)
    | _ => none
  | _ => none

/-- The body of a string and its closing quote. -/
def matchBody : List Char → Match
  | [] => none
  | '"' :: cs => some (['"'], cs)
  | '\\' :: cs =>
    match cs with
    | [] => none
    | letter :: cs =>
      if (Text.escapes.lookup letter).isSome then
        (matchBody cs).map fun (lexeme, rest) => ('\\' :: letter :: lexeme, rest)
      else none
  | c :: cs =>
    if c = '\n' ∨ c = '\r' then none
    else (matchBody cs).map fun (lexeme, rest) => (c :: lexeme, rest)

def matchString : List Char → Match
  | '"' :: cs => (matchBody cs).map fun (lexeme, rest) => ('"' :: lexeme, rest)
  | _ => none

/-- The first of some fixed texts that a text begins with. -/
def matchFirst {α : Type} (textOf : α → String) (cs : List Char) :
    List α → Option (α × List Char × List Char)
  | [] => none
  | a :: rest =>
    match matchText (textOf a).toList cs with
    | some (lexeme, after) => some (a, lexeme, after)
    | none => matchFirst textOf cs rest

/-- Which kinds of tokens are looked for. -/
structure Wanted where
  kinds : List Terminal

namespace Wanted

def has (w : Wanted) (t : Terminal) : Bool :=
  w.kinds.contains t

def keywords (w : Wanted) : List Keyword :=
  Keyword.all.filter fun k => w.has (.keyword k)

def symbols (w : Wanted) : List Symbol :=
  Symbol.all.filter fun s => w.has (.symbol s)

/-- Every kind. -/
def anything : Wanted :=
  ⟨[.ident, .integer, .decimal, .character, .string] ++ Keyword.all.map .keyword ++
    Symbol.all.map .symbol⟩

end Wanted

/-- A word. Where a name is looked for, the longest one is taken, and it is a keyword if it is the
whole of one that is looked for. Elsewhere a keyword may run into what follows. -/
def matchWord (w : Wanted) (cs : List Char) : Option (Terminal × List Char × List Char) :=
  if w.has .ident then
    match matchName cs with
    | none => none
    | some (lexeme, rest) =>
      match w.keywords.find? fun k => k.text.toList == lexeme with
      | some k => some (.keyword k, lexeme, rest)
      | none => some (.ident, lexeme, rest)
  else
    (matchFirst Keyword.text cs w.keywords).map fun (k, lexeme, rest) =>
      (.keyword k, lexeme, rest)

/-- A lexeme of one kind, if that kind is looked for. -/
def matchKind (w : Wanted) (kind : Terminal) (m : List Char → Match) (cs : List Char) :
    Option (Terminal × List Char × List Char) :=
  if w.has kind then (m cs).map fun (lexeme, rest) => (kind, lexeme, rest) else none

/-- The token at the start of a text, of one of the kinds looked for. A number with a point is
tried before one without. -/
def matchToken (w : Wanted) (cs : List Char) : Option (Terminal × List Char × List Char) :=
  matchKind w .decimal matchDecimal cs
    <|> matchKind w .integer matchInteger cs
    <|> matchKind w .character matchCharacter cs
    <|> matchKind w .string matchString cs
    <|> matchWord w cs
    <|> (matchFirst Symbol.text cs w.symbols).map fun (s, lexeme, rest) => (.symbol s, lexeme, rest)

/-- Text not yet read, and where it begins. -/
structure Cursor where
  rest : List Char
  position : Position
deriving Repr

namespace Cursor

def ofText (text : List Char) : Cursor :=
  ⟨text, .origin⟩

/-- Past the white space. -/
def skipLayout (c : Cursor) : Cursor :=
  go c.rest c.position
where
  go : List Char → Position → Cursor
    | [], p => ⟨[], p⟩
    | c :: cs, p => if isLayout c then go cs (p.advance c) else ⟨c :: cs, p⟩

/-- Past a lexeme. -/
def past (c : Cursor) (lexeme rest : List Char) : Cursor :=
  ⟨rest, lexeme.foldl Position.advance c.position⟩

end Cursor

/-- Why a text is no program: a token that cannot stand where it does, or a character that begins
no token. -/
inductive SyntaxError where
  | token (t : Token)
  | character (c : Char) (position : Position)
deriving DecidableEq, Repr

/-- The next token looked for at a place. At the end of the text that is the end itself, which
takes its position from the token before, `last`. If no token is found, whatever token stands there
is the error. -/
def nextToken (place : Place) (last : Position) (cursor : Cursor) :
    Except SyntaxError (Token × Cursor) :=
  let cursor := cursor.skipLayout
  match cursor.rest with
  | [] => .ok (⟨.finish, [], last⟩, cursor)
  | c :: _ =>
    match matchToken ⟨place.accepts⟩ cursor.rest with
    | some (kind, lexeme, rest) => .ok (⟨kind, lexeme, cursor.position⟩, cursor.past lexeme rest)
    | none =>
      match matchToken .anything cursor.rest with
      | some (kind, lexeme, _) => .error (.token ⟨kind, lexeme, cursor.position⟩)
      | none => .error (.character c cursor.position)

end PlcLang
