namespace PlcLang

/-- Words with a meaning of their own. -/
inductive Keyword where
  | FUN | LIST | VAL | VAR | DO | END | LET | SWITCH | CASE | DEFAULT | IF | ELSE | WHILE | RETURN
  | NIL | TRUE | FALSE
deriving DecidableEq, Repr

/-- Fixed marks. -/
inductive Symbol where
  | and | or | eq | ne | lt | gt | plus | minus | star | slash | caret
  | colon | equal | lsqb | rsqb | lpar | rpar | semicolon | comma
deriving DecidableEq, Repr

/-- The kinds of tokens. -/
inductive Terminal where
  | ident
  | integer
  | decimal
  | character
  | string
  | keyword (k : Keyword)
  | symbol (s : Symbol)
  | finish
deriving DecidableEq, Repr

namespace Keyword

def text : Keyword → String
  | FUN => "FUN"
  | LIST => "LIST"
  | VAL => "VAL"
  | VAR => "VAR"
  | DO => "DO"
  | END => "END"
  | LET => "LET"
  | SWITCH => "SWITCH"
  | CASE => "CASE"
  | DEFAULT => "DEFAULT"
  | IF => "IF"
  | ELSE => "ELSE"
  | WHILE => "WHILE"
  | RETURN => "RETURN"
  | NIL => "NIL"
  | TRUE => "TRUE"
  | FALSE => "FALSE"

def all : List Keyword :=
  [FUN, LIST, VAL, VAR, DO, END, LET, SWITCH, CASE, DEFAULT, IF, ELSE, WHILE, RETURN, NIL, TRUE,
    FALSE]

theorem mem_all (k : Keyword) : k ∈ all := by
  cases k <;> decide

end Keyword

namespace Symbol

def text : Symbol → String
  | and => "&&"
  | or => "||"
  | eq => "=="
  | ne => "!="
  | lt => "<"
  | gt => ">"
  | plus => "+"
  | minus => "-"
  | star => "*"
  | slash => "/"
  | caret => "^"
  | colon => ":"
  | equal => "="
  | lsqb => "["
  | rsqb => "]"
  | lpar => "("
  | rpar => ")"
  | semicolon => ";"
  | comma => ","

def name : Symbol → String
  | and => "AND"
  | or => "OR"
  | eq => "EQ"
  | ne => "NE"
  | lt => "LT"
  | gt => "GT"
  | plus => "PLUS"
  | minus => "MINUS"
  | star => "STAR"
  | slash => "SLASH"
  | caret => "CARET"
  | colon => "COLON"
  | equal => "EQUAL"
  | lsqb => "LSQB"
  | rsqb => "RSQB"
  | lpar => "LPAR"
  | rpar => "RPAR"
  | semicolon => "SEMICOLON"
  | comma => "COMMA"

/-- The longer marks stand first, so that the first one found is the longest. -/
def all : List Symbol :=
  [and, or, eq, ne, lt, gt, plus, minus, star, slash, caret, colon, equal, lsqb, rsqb, lpar, rpar,
    semicolon, comma]

theorem mem_all (s : Symbol) : s ∈ all := by
  cases s <;> decide

end Symbol

/-- What error messages call the kind. -/
def Terminal.name : Terminal → String
  | ident => "IDENT"
  | integer => "INTEGER"
  | decimal => "DECIMAL"
  | character => "CHARACTER"
  | string => "STRING"
  | keyword k => k.text
  | symbol s => s.name
  | finish => "$END"

end PlcLang
