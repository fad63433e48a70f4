import PlcLang.Tree.Node

namespace PlcLang

/-! Trees of the shape that program texts have. -/

inductive Expr where
  | literal (value : Literal)
  | group (inner : Expr)
  | binary (op : Operator) (left right : Expr)
  | access (name : String) (offset : Option Expr)
  | call (name : String) (arguments : List Expr)
  | list (elements : List Expr)
deriving Repr, Inhabited

mutual
inductive Stmt where
  | expression (e : Expr)
  | declaration (name : String) (typeName : Option String) (value : Option Expr)
  | assignment (receiver value : Expr)
  | conditional (condition : Expr) (thenBody elseBody : List Stmt)
  | switch (condition : Expr) (cases : List Case)
  | loop (condition : Expr) (body : List Stmt)
  | ret (value : Expr)

/-- A branch of a switch; the default branch has no value. -/
inductive Case where
  | mk (value : Option Expr) (body : List Stmt)
end

deriving instance Repr for Stmt, Case

structure Global where
  name : String
  isMutable : Bool
  typeName : String
  value : Option Expr
deriving Repr

structure Parameter where
  name : String
  typeName : String
deriving Repr

structure Function where
  name : String
  parameters : List Parameter
  returnTypeName : Option String
  body : List Stmt
deriving Repr

structure Program where
  globals : List Global
  functions : List Function
deriving Repr

/-- A name that may be left out. -/
def optionalName : Option String → Json
  | some name => .string name
  | none => .null

mutual
def Expr.toNode : Expr → Node Unit
  | .literal value => .literal () value
  | .group inner => .group () inner.toNode
  | .binary op left right => .binary () op left.toNode right.toNode
  | .access name none => .access () (.string name) .absent
  | .access name (some offset) => .access () (.string name) offset.toNode
  | .call name arguments => .call () (.string name) (.list (Expr.toNodes arguments))
  | .list elements => .listLiteral () (.list (Expr.toNodes elements))

def Expr.toNodes : List Expr → List (Node Unit)
  | [] => []
  | e :: rest => e.toNode :: Expr.toNodes rest
end

def Expr.optionalNode : Option Expr → Node Unit
  | some e => e.toNode
  | none => .absent

mutual
def Stmt.toNode : Stmt → Node Unit
  | .expression e => .expressionStmt e.toNode
  | .declaration name typeName value =>
    .declaration () (.string name) (optionalName typeName) (Expr.optionalNode value)
  | .assignment receiver value => .assignment receiver.toNode value.toNode
  | .conditional condition thenBody elseBody =>
    .conditional condition.toNode (.list (Stmt.toNodes thenBody)) (.list (Stmt.toNodes elseBody))
  | .switch condition cases => .switch condition.toNode (.list (Case.toNodes cases))
  | .loop condition body => .loop condition.toNode (.list (Stmt.toNodes body))
  | .ret value => .ret value.toNode

def Stmt.toNodes : List Stmt → List (Node Unit)
  | [] => []
  | s :: rest => s.toNode :: Stmt.toNodes rest

def Case.toNode : Case → Node Unit
  | .mk value body => .case (Expr.optionalNode value) (.list (Stmt.toNodes body))

def Case.toNodes : List Case → List (Node Unit)
  | [] => []
  | c :: rest => c.toNode :: Case.toNodes rest
end

def Global.toNode (g : Global) : Node Unit :=
  .global () (.string g.name) g.isMutable (.string g.typeName) (Expr.optionalNode g.value)

def Parameter.toNode (p : Parameter) : Node Unit :=
  .parameter () (.string p.name) (.string p.typeName)

def Function.toNode (f : Function) : Node Unit :=
  .function () (.string f.name) (.list (f.parameters.map Parameter.toNode))
    (optionalName f.returnTypeName) (.list (Stmt.toNodes f.body))

def Program.toNode (p : Program) : Node Unit :=
  .source (.list (p.globals.map Global.toNode)) (.list (p.functions.map Function.toNode))

end PlcLang
