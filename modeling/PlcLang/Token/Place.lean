import PlcLang.Token.Terminal

namespace PlcLang

/-- What has just been read, as far as it decides which tokens are looked for next. -/
inductive Place where
  | start
  | nameWanted
  | functionName
  | functionOpening
  | variableName
  | parameterType
  | functionClosing
  | resultType
  | constantType
  | listEqual
  | listClosing
  | variableType
  | letName
  | functionEnd
  | blockOpening
  | thenOpening
  | caseOpening
  | statementEnd
  | operandWanted
  | bracketOpening
  | callOpening
  | sign
  | name
  | operand
deriving DecidableEq, Repr

namespace Place

def keywords (ks : List Keyword) : List Terminal :=
  ks.map .keyword

def symbols (ss : List Symbol) : List Terminal :=
  ss.map .symbol

/-- What an operand may begin with. -/
def operandStart : List Terminal :=
  [.ident, .integer, .decimal, .character, .string] ++ keywords [.NIL, .TRUE, .FALSE] ++
    symbols [.minus, .lpar, .lsqb]

def statementStart : List Terminal :=
  operandStart ++ keywords [.IF, .LET, .RETURN, .SWITCH, .WHILE]

/-- What may follow a complete expression somewhere. -/
def expressionEnd : List Terminal :=
  keywords [.CASE, .DEFAULT, .DO] ++ symbols [.colon, .comma, .equal, .rpar, .rsqb, .semicolon]

def operators : List Terminal :=
  symbols [.and, .or, .eq, .ne, .lt, .gt, .plus, .minus, .star, .slash, .caret]

/-- The kinds of tokens that are looked for at a place. They are those that some program has there
after the same kind of token, so a kind may be looked for that this program cannot have. -/
def accepts : Place → List Terminal
  | start => .finish :: keywords [.FUN, .LIST, .VAL, .VAR]
  | nameWanted => [.ident]
  | functionName => symbols [.lpar]
  | functionOpening => .ident :: symbols [.rpar]
  | variableName => symbols [.colon]
  | parameterType => symbols [.comma, .rpar]
  | functionClosing => keywords [.DO] ++ symbols [.colon]
  | resultType => keywords [.DO]
  | constantType => symbols [.equal]
  | listEqual => symbols [.lsqb]
  | listClosing => symbols [.semicolon]
  | variableType => symbols [.equal, .semicolon]
  | letName => symbols [.colon, .equal, .semicolon]
  | functionEnd => .finish :: keywords [.FUN]
  | blockOpening => statementStart ++ keywords [.END]
  | thenOpening => statementStart ++ keywords [.END, .ELSE]
  | caseOpening => statementStart ++ keywords [.CASE, .DEFAULT]
  | statementEnd => statementStart ++ keywords [.END, .ELSE, .CASE, .DEFAULT]
  | operandWanted => operandStart
  | bracketOpening => operandStart ++ symbols [.rsqb]
  | callOpening => operandStart ++ symbols [.rpar]
  | sign => [.decimal, .integer]
  | name => operators ++ expressionEnd ++ symbols [.lpar, .lsqb]
  | operand => operators ++ expressionEnd

end Place

end PlcLang
