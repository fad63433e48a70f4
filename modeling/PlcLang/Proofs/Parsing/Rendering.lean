import PlcLang.Proofs.Parsing.Literals
import PlcLang.Proofs.Parsing.Shape

/-! How a program is written: its tokens in the order of the grammar, one space between any two. -/

namespace PlcLang

open Word

/-- The mark of an operator. -/
def Operator.words : Operator → List Word
  | .and => [mark .and]
  | .or => [mark .or]
  | .less => [mark .lt]
  | .greater => [mark .gt]
  | .equal => [mark .eq]
  | .unequal => [mark .ne]
  | .plus => [mark .plus]
  | .minus => [mark .minus]
  | .times => [mark .star]
  | .divide => [mark .slash]
  | .power => [mark .caret]
  | .other _ => []

def Word.sign (negative : Bool) : List Word :=
  if negative then [mark .minus] else []

/-- The words of a literal. What the grammar has no literal for has none. -/
def Literal.words : Literal → List Word
  | .nil => [key .NIL]
  | .boolean b => [key (if b then .TRUE else .FALSE)]
  | .integer n => sign (n < 0) ++ [number n.natAbs]
  | .decimal (.finite negative c e) => sign negative ++ [fraction c (-e).toNat]
  | .character (.string s) => s.toList.map Word.character
  | .string s => [Word.string s]
  | _ => []

mutual
def Expr.words : Expr → List Word
  | .literal value => value.words
  | .group inner => mark .lpar :: inner.words ++ [mark .rpar]
  | .binary op left right => left.words ++ op.words ++ right.words
  | .access n none => [ident n]
  | .access n (some offset) => ident n :: mark .lsqb :: offset.words ++ [mark .rsqb]
  | .call n arguments => ident n :: mark .lpar :: Expr.listWords arguments ++ [mark .rpar]
  | .list elements => mark .lsqb :: Expr.listWords elements ++ [mark .rsqb]

/-- Expressions with commas between them. -/
def Expr.listWords : List Expr → List Word
  | [] => []
  | e :: rest => e.words ++ Expr.moreWords rest

def Expr.moreWords : List Expr → List Word
  | [] => []
  | e :: rest => mark .comma :: e.words ++ Expr.moreWords rest
end

/-- A type behind a colon, if there is one. -/
def typeWords : Option String → List Word
  | some t => [mark .colon, ident t]
  | none => []

/-- A value behind an equals sign, if there is one. -/
def valueWords : Option Expr → List Word
  | some e => mark .equal :: e.words
  | none => []

mutual
def Stmt.words : Stmt → List Word
  | .expression e => e.words ++ [mark .semicolon]
  | .declaration n typeName value =>
    key .LET :: ident n :: typeWords typeName ++ valueWords value ++ [mark .semicolon]
  | .assignment receiver value =>
    receiver.words ++ mark .equal :: value.words ++ [mark .semicolon]
  | .conditional condition thenBody elseBody =>
    key .IF :: condition.words ++ key .DO :: Stmt.allWords thenBody ++
      (if elseBody.isEmpty then [] else key .ELSE :: Stmt.allWords elseBody) ++ [key .END]
  | .switch condition cases => key .SWITCH :: condition.words ++ Case.allWords cases ++ [key .END]
  | .loop condition body =>
    key .WHILE :: condition.words ++ key .DO :: Stmt.allWords body ++ [key .END]
  | .ret value => key .RETURN :: value.words ++ [mark .semicolon]

def Stmt.allWords : List Stmt → List Word
  | [] => []
  | s :: rest => s.words ++ Stmt.allWords rest

def Case.allWords : List Case → List Word
  | [] => []
  | .mk (some value) body :: rest =>
    key .CASE :: value.words ++ mark .colon :: Stmt.allWords body ++ Case.allWords rest
  | .mk none body :: rest => key .DEFAULT :: Stmt.allWords body ++ Case.allWords rest
end

def Global.words (g : Global) : List Word :=
  key (if g.isMutable then .VAR else .VAL) :: ident g.name :: typeWords (some g.typeName) ++
    valueWords g.value ++ [mark .semicolon]

def Parameter.words (p : Parameter) : List Word :=
  ident p.name :: typeWords (some p.typeName)

/-- Parameters with commas between them. -/
def Parameter.listWords : List Parameter → List Word
  | [] => []
  | p :: rest => p.words ++ rest.flatMap fun p => mark .comma :: p.words

def Function.words (f : Function) : List Word :=
  key .FUN :: ident f.name :: mark .lpar :: Parameter.listWords f.parameters ++
    mark .rpar :: typeWords f.returnTypeName ++ key .DO :: Stmt.allWords f.body ++ [key .END]

def Program.words (p : Program) : List Word :=
  p.globals.flatMap Global.words ++ p.functions.flatMap Function.words

/-- The text of a program. -/
def Program.render (p : Program) : String :=
  String.ofList (spaced p.words)

/-- What the grammar can write for a literal: an integer that is not too long, a decimal with places
that is there to be written and, behind a sign, not rounded away, and a single character. -/
def Literal.Spelled : Literal → Prop
  | .nil | .boolean _ | .string _ => True
  | .integer n => digitCount n.natAbs ≤ Integer.digitLimit
  | .decimal (.finite negative c e) =>
    e < 0 ∧ (Decimal.finite negative c e).inRange = true ∧
      (negative = true → c ≠ 0 ∧ digitCount c ≤ Decimal.Context.sign.precision)
  | .character (.string s) => s.length = 1
  | _ => False

/-- The least exponent that a sign leaves alone. -/
def Literal.Signable : Literal → Prop
  | .decimal (.finite true _ e) => Decimal.Context.sign.tiny ≤ e
  | _ => True

end PlcLang
