import PlcLang.Json.Basic

namespace PlcLang.Json

/-- Inside a string only the quote, the backslash and control characters are escaped. -/
def escapeChar (c : Char) : String :=
  if c = '"' then "\\\""
  else if c = '\\' then "\\\\"
  else if c = '\x08' then "\\b"
  else if c = '\x0c' then "\\f"
  else if c = '\n' then "\\n"
  else if c = '\r' then "\\r"
  else if c = '\t' then "\\t"
  else if c.toNat < 0x20 then "\\u" ++ Text.hex 4 c.toNat
  else c.toString

def writeString (s : String) : String :=
  s.toList.foldl (fun t c => t ++ escapeChar c) "\"" ++ "\""

def writeReal : Double → String
  | .nan => "NaN"
  | .infinite negative => if negative then "-Infinity" else "Infinity"
  | x => x.toText

/-- A bracketed sequence with each part on a line of its own, two spaces deeper than the
brackets. -/
def block (depth : Nat) (opening closing : String) (parts : List String) : String :=
  if parts.isEmpty then opening ++ closing
  else
    let line := "\n" ++ "".pushn ' ' (2 * depth)
    opening ++ line ++ "  " ++ (("," ++ line ++ "  ").intercalate parts) ++ line ++ closing

mutual
/-- The text of a value that stands `depth` brackets deep. -/
def write (depth : Nat) : Json → String
  | .null => "null"
  | .bool b => if b then "true" else "false"
  | .integer n => toString n
  | .real x => writeReal x
  | .string s => writeString s
  | .array items => block depth "[" "]" (writeItems (depth + 1) items)
  | .object members => block depth "\x7b" "\x7d" (writeMembers (depth + 1) members)

def writeItems (depth : Nat) : List Json → List String
  | [] => []
  | j :: rest => write depth j :: writeItems depth rest

def writeMembers (depth : Nat) : List (String × Json) → List String
  | [] => []
  | (k, j) :: rest => (writeString k ++ ": " ++ write depth j) :: writeMembers depth rest
end

/-- The text of a document. -/
def toText (j : Json) : String :=
  j.write 0

end PlcLang.Json
