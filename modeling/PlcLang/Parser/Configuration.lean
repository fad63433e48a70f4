import PlcLang.Parser.Literal
import PlcLang.Tree.Program

namespace PlcLang

namespace Symbol

/-- The operator that a mark stands for between two operands. -/
def operator? : Symbol → Option Operator
  | and => some .and
  | or => some .or
  | eq => some .equal
  | ne => some .unequal
  | lt => some .less
  | gt => some .greater
  | plus => some .plus
  | minus => some .minus
  | star => some .times
  | slash => some .divide
  | caret => some .power
  | _ => none

end Symbol

namespace Parser

/-- Left operands that wait for their right one, the innermost first. -/
abbrev Operands := List (Expr × Operator)

/-- Joins `e` with the left operands whose operators bind at least as tight as `level`. -/
def settle (level : Nat) : Operands → Expr → Operands × Expr
  | [], e => ([], e)
  | (left, op) :: rest, e =>
    if level ≤ op.level then settle level rest (.binary op left e)
    else ((left, op) :: rest, e)

/-- The whole expression that ends with `e`. -/
def whole (pending : Operands) (e : Expr) : Expr :=
  (settle 0 pending e).2

/-- A bracket inside an expression, with what waits around it. -/
inductive Nest where
  | group (around : Operands)
  | index (name : String) (around : Operands)
  | arguments (name : String) (done : List Expr) (around : Operands)
  | elements (done : List Expr) (around : Operands)
deriving Repr

/-- How far an expression is read. -/
inductive Point where
  | wanted
  | wantedOrClosing
  | sign
  | name (name : String)
  | complete (e : Expr)
deriving Repr

/-- What an expression is read for. -/
inductive Goal where
  | element (name typeName : String) (done : List Expr)
  | global (name : String) (isMutable : Bool) (typeName : String)
  | declaration (name : String) (typeName : Option String)
  | ifCondition
  | whileCondition
  | switchSubject
  | caseValue (subject : Expr) (done : List Case)
  | result
  | statement
  | assigned (receiver : Expr)
deriving Repr

/-- What opened a block. -/
inductive Opening where
  | function (name : String) (parameters : List Parameter) (result : Option String)
  | thenBranch (condition : Expr)
  | elseBranch (condition : Expr) (thenBody : List Stmt)
  | whileBody (condition : Expr)
  | caseBranch (subject : Expr) (done : List Case) (value : Expr)
  | defaultBranch (subject : Expr) (done : List Case)
deriving Repr

/-- A block whose end is not reached, and its statements so far, the last first. -/
structure OpenBlock where
  opening : Opening
  done : List Stmt
deriving Repr

inductive GlobalKind where
  | list | constant | mutable
deriving DecidableEq, Repr

/-- Where in a program the reader stands. -/
inductive Spot where
  | top (functionsOnly : Bool)
  | globalKind (kind : GlobalKind)
  | globalName (kind : GlobalKind) (name : String)
  | globalColon (kind : GlobalKind) (name : String)
  | globalType (kind : GlobalKind) (name typeName : String)
  | listEqual (name typeName : String)
  | listClosed (g : Global)
  | functionKeyword
  | functionName (name : String)
  | firstParameter (name : String)
  | nextParameter (name : String) (done : List Parameter)
  | parameterName (name : String) (done : List Parameter) (parameter : String)
  | parameterColon (name : String) (done : List Parameter) (parameter : String)
  | parameterType (name : String) (done : List Parameter)
  | headerClosed (name : String) (parameters : List Parameter)
  | resultColon (name : String) (parameters : List Parameter)
  | resultType (name : String) (parameters : List Parameter) (result : String)
  | statement
  | letKeyword
  | letName (name : String)
  | letColon (name : String)
  | letType (name typeName : String)
  | expression (goal : Goal) (nests : List Nest) (pending : Operands) (point : Point)
deriving Repr

/-- All that is read of a program: complete globals and functions and open blocks, each the last
first, and the spot inside the innermost block. -/
structure Configuration where
  globals : List Global := []
  functions : List Function := []
  blocks : List OpenBlock := []
  spot : Spot := .top false
deriving Repr

namespace Configuration

/-- Goes to a spot; what is read next there depends on the place. -/
def goTo (c : Configuration) (spot : Spot) (place : Place) : Option (Configuration × Place) :=
  some ({ c with spot := spot }, place)

def addGlobal (c : Configuration) (g : Global) : Option (Configuration × Place) :=
  some ({ c with globals := g :: c.globals, spot := .top false }, .start)

def addStatement (c : Configuration) (s : Stmt) : Option (Configuration × Place) :=
  match c.blocks with
  | b :: rest =>
    some ({ c with blocks := { b with done := s :: b.done } :: rest, spot := .statement },
      .statementEnd)
  | [] => none

def openBlock (c : Configuration) (opening : Opening) (place : Place) :
    Option (Configuration × Place) :=
  some ({ c with blocks := ⟨opening, []⟩ :: c.blocks, spot := .statement }, place)

def startExpression (c : Configuration) (goal : Goal) : Option (Configuration × Place) :=
  c.goTo (.expression goal [] [] .wanted) .operandWanted

/-- `END`, after the statements of the innermost block. -/
def closeBlock (c : Configuration) : Option (Configuration × Place) :=
  match c.blocks with
  | [] => none
  | b :: rest =>
    let body := b.done.reverse
    let outside := { c with blocks := rest }
    match b.opening with
    | .function name parameters result =>
      some ({ outside with
        functions := ⟨name, parameters, result, body⟩ :: c.functions, spot := .top true },
        .functionEnd)
    | .thenBranch condition => outside.addStatement (.conditional condition body [])
    | .elseBranch condition thenBody => outside.addStatement (.conditional condition thenBody body)
    | .whileBody condition => outside.addStatement (.loop condition body)
    | .defaultBranch subject done =>
      outside.addStatement (.switch subject (done.reverse ++ [.mk none body]))
    | .caseBranch .. => none

/-- `ELSE`, `CASE` or `DEFAULT` after the statements of a block. -/
def nextBranch (c : Configuration) (k : Keyword) : Option (Configuration × Place) :=
  match c.blocks with
  | [] => none
  | b :: rest =>
    let body := b.done.reverse
    let outside := { c with blocks := rest }
    match b.opening, k with
    | .thenBranch condition, .ELSE => outside.openBlock (.elseBranch condition body) .blockOpening
    | .caseBranch subject done value, .CASE =>
      outside.startExpression (.caseValue subject (.mk (some value) body :: done))
    | .caseBranch subject done value, .DEFAULT =>
      outside.openBlock (.defaultBranch subject (.mk (some value) body :: done)) .blockOpening
    | _, _ => none

/-- The token after a whole expression outside brackets. -/
def finishGoal (c : Configuration) (e : Expr) (goal : Goal) (t : Terminal) :
    Option (Configuration × Place) :=
  match goal, t with
  | .element name typeName done, .symbol .comma =>
    c.startExpression (.element name typeName (e :: done))
  | .element name typeName done, .symbol .rsqb =>
    c.goTo (.listClosed ⟨name, true, typeName, some (.list (e :: done).reverse)⟩)
      .listClosing
  | .global name isMutable typeName, .symbol .semicolon =>
    c.addGlobal ⟨name, isMutable, typeName, some e⟩
  | .declaration name typeName, .symbol .semicolon =>
    c.addStatement (.declaration name typeName (some e))
  | .ifCondition, .keyword .DO => c.openBlock (.thenBranch e) .thenOpening
  | .whileCondition, .keyword .DO => c.openBlock (.whileBody e) .blockOpening
  | .switchSubject, .keyword .CASE => c.startExpression (.caseValue e [])
  | .switchSubject, .keyword .DEFAULT => c.openBlock (.defaultBranch e []) .blockOpening
  | .caseValue subject done, .symbol .colon => c.openBlock (.caseBranch subject done e) .caseOpening
  | .result, .symbol .semicolon => c.addStatement (.ret e)
  | .statement, .symbol .semicolon => c.addStatement (.expression e)
  | .statement, .symbol .equal => c.startExpression (.assigned e)
  | .assigned receiver, .symbol .semicolon => c.addStatement (.assignment receiver e)
  | _, _ => none

/-- The token after a complete operand: an operator, or the end of what the expression is in. -/
def afterOperand (c : Configuration) (goal : Goal) (nests : List Nest) (pending : Operands)
    (e : Expr) (t : Terminal) : Option (Configuration × Place) :=
  match t with
  | .symbol s =>
    match s.operator? with
    | some op =>
      let (around, left) := settle op.level pending e
      c.goTo (.expression goal nests ((left, op) :: around) .wanted) .operandWanted
    | none =>
      let e := whole pending e
      match nests, s with
      | [], _ => c.finishGoal e goal t
      | .group around :: nests, .rpar =>
        c.goTo (.expression goal nests around (.complete (.group e))) .operand
      | .index name around :: nests, .rsqb =>
        c.goTo (.expression goal nests around (.complete (.access name (some e))))
          .operand
      | .arguments name done around :: nests, .comma =>
        c.goTo (.expression goal (.arguments name (e :: done) around :: nests) [] .wanted)
          .operandWanted
      | .arguments name done around :: nests, .rpar =>
        c.goTo (.expression goal nests around
          (.complete (.call name (e :: done).reverse))) .operand
      | .elements done around :: nests, .comma =>
        c.goTo (.expression goal (.elements (e :: done) around :: nests) [] .wanted) .operandWanted
      | .elements done around :: nests, .rsqb =>
        c.goTo (.expression goal nests around (.complete (.list (e :: done).reverse))) .operand
      | _, _ => none
  | _ => if nests.isEmpty then c.finishGoal (whole pending e) goal t else none

/-- The token that an operand begins with. -/
def startOperand (c : Configuration) (goal : Goal) (nests : List Nest) (pending : Operands)
    (t : Token) : Option (Configuration × Place) :=
  match t.kind with
  | .ident => c.goTo (.expression goal nests pending (.name (String.ofList t.text))) .name
  | .symbol .minus => c.goTo (.expression goal nests pending .sign) .sign
  | .symbol .lpar =>
    c.goTo (.expression goal (.group pending :: nests) [] .wanted) .operandWanted
  | .symbol .lsqb =>
    c.goTo (.expression goal (.elements [] pending :: nests) [] .wantedOrClosing) .bracketOpening
  | _ =>
    match t.literal? with
    | some value =>
      c.goTo (.expression goal nests pending (.complete (.literal value))) .operand
    | none => none

/-- The bracket that closes directly after it was opened. -/
def closeEmpty (c : Configuration) (goal : Goal) (nests : List Nest) (t : Terminal) :
    Option (Configuration × Place) :=
  match goal, nests, t with
  | .element name typeName done, [], .symbol .rsqb =>
    c.goTo (.listClosed ⟨name, true, typeName, some (.list done.reverse)⟩)
      .listClosing
  | _, .arguments name done around :: nests, .symbol .rpar =>
    c.goTo (.expression goal nests around (.complete (.call name done.reverse))) .operand
  | _, .elements done around :: nests, .symbol .rsqb =>
    c.goTo (.expression goal nests around (.complete (.list done.reverse))) .operand
  | _, _, _ => none

/-- A token inside an expression. -/
def shiftExpression (c : Configuration) (goal : Goal) (nests : List Nest) (pending : Operands)
    (point : Point) (t : Token) : Option (Configuration × Place) :=
  match point with
  | .wanted => c.startOperand goal nests pending t
  | .wantedOrClosing =>
    match c.closeEmpty goal nests t.kind with
    | some r => some r
    | none => c.startOperand goal nests pending t
  | .sign =>
    match t.negative? with
    | some value =>
      c.goTo (.expression goal nests pending (.complete (.literal value))) .operand
    | none => none
  | .name name =>
    match t.kind with
    | .symbol .lpar =>
      c.goTo (.expression goal (.arguments name [] pending :: nests) [] .wantedOrClosing)
        .callOpening
    | .symbol .lsqb =>
      c.goTo (.expression goal (.index name pending :: nests) [] .wanted) .operandWanted
    | kind => c.afterOperand goal nests pending (.access name none) kind
  | .complete e => c.afterOperand goal nests pending e t.kind

/-- A token where a statement may begin. -/
def shiftStatement (c : Configuration) (t : Token) : Option (Configuration × Place) :=
  match t.kind with
  | .keyword .LET => c.goTo .letKeyword .nameWanted
  | .keyword .IF => c.startExpression .ifCondition
  | .keyword .WHILE => c.startExpression .whileCondition
  | .keyword .SWITCH => c.startExpression .switchSubject
  | .keyword .RETURN => c.startExpression .result
  | .keyword .END => c.closeBlock
  | .keyword .ELSE => c.nextBranch .ELSE
  | .keyword .CASE => c.nextBranch .CASE
  | .keyword .DEFAULT => c.nextBranch .DEFAULT
  | _ => c.startOperand .statement [] [] t

/-- A token where a global or a function may begin. -/
def shiftTop (c : Configuration) (functionsOnly : Bool) (t : Terminal) :
    Option (Configuration × Place) :=
  match t, functionsOnly with
  | .keyword .FUN, _ => c.goTo .functionKeyword .nameWanted
  | .keyword .LIST, false => c.goTo (.globalKind .list) .nameWanted
  | .keyword .VAL, false => c.goTo (.globalKind .constant) .nameWanted
  | .keyword .VAR, false => c.goTo (.globalKind .mutable) .nameWanted
  | _, _ => none

/-- The place after the type of a global. -/
def globalTypePlace : GlobalKind → Place
  | .list | .constant => .constantType
  | .mutable => .variableType

/-- A token and the configuration after it, with the place for the token that follows; none if the
token cannot stand there. -/
def shift (c : Configuration) (t : Token) : Option (Configuration × Place) :=
  let text := String.ofList t.text
  match c.spot, t.kind with
  | .top functionsOnly, kind => c.shiftTop functionsOnly kind
  | .globalKind kind, .ident => c.goTo (.globalName kind text) .variableName
  | .globalName kind name, .symbol .colon => c.goTo (.globalColon kind name) .nameWanted
  | .globalColon kind name, .ident => c.goTo (.globalType kind name text) (globalTypePlace kind)
  | .globalType .list name typeName, .symbol .equal => c.goTo (.listEqual name typeName) .listEqual
  | .globalType .constant name typeName, .symbol .equal =>
    c.startExpression (.global name false typeName)
  | .globalType .mutable name typeName, .symbol .equal =>
    c.startExpression (.global name true typeName)
  | .globalType .mutable name typeName, .symbol .semicolon =>
    c.addGlobal ⟨name, true, typeName, none⟩
  | .listEqual name typeName, .symbol .lsqb =>
    c.goTo (.expression (.element name typeName []) [] [] .wantedOrClosing) .bracketOpening
  | .listClosed g, .symbol .semicolon => c.addGlobal g
  | .functionKeyword, .ident => c.goTo (.functionName text) .functionName
  | .functionName name, .symbol .lpar => c.goTo (.firstParameter name) .functionOpening
  | .firstParameter name, .ident => c.goTo (.parameterName name [] text) .variableName
  | .firstParameter name, .symbol .rpar => c.goTo (.headerClosed name []) .functionClosing
  | .nextParameter name done, .ident => c.goTo (.parameterName name done text) .variableName
  | .parameterName name done p, .symbol .colon => c.goTo (.parameterColon name done p) .nameWanted
  | .parameterColon name done p, .ident =>
    c.goTo (.parameterType name (⟨p, text⟩ :: done)) .parameterType
  | .parameterType name done, .symbol .comma => c.goTo (.nextParameter name done) .nameWanted
  | .parameterType name done, .symbol .rpar =>
    c.goTo (.headerClosed name done.reverse) .functionClosing
  | .headerClosed name parameters, .symbol .colon =>
    c.goTo (.resultColon name parameters) .nameWanted
  | .headerClosed name parameters, .keyword .DO =>
    c.openBlock (.function name parameters none) .blockOpening
  | .resultColon name parameters, .ident => c.goTo (.resultType name parameters text) .resultType
  | .resultType name parameters result, .keyword .DO =>
    c.openBlock (.function name parameters (some result)) .blockOpening
  | .statement, _ => c.shiftStatement t
  | .letKeyword, .ident => c.goTo (.letName text) .letName
  | .letName name, .symbol .colon => c.goTo (.letColon name) .nameWanted
  | .letName name, .symbol .equal => c.startExpression (.declaration name none)
  | .letName name, .symbol .semicolon => c.addStatement (.declaration name none none)
  | .letColon name, .ident => c.goTo (.letType name text) .variableType
  | .letType name typeName, .symbol .equal => c.startExpression (.declaration name (some typeName))
  | .letType name typeName, .symbol .semicolon =>
    c.addStatement (.declaration name (some typeName) none)
  | .expression goal nests pending point, _ => c.shiftExpression goal nests pending point t
  | _, _ => none

/-- The program, where it may end. -/
def program? (c : Configuration) : Option Program :=
  match c.spot with
  | .top _ => some ⟨c.globals.reverse, c.functions.reverse⟩
  | _ => none

end Configuration

end Parser

end PlcLang
