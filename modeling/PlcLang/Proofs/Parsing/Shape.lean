import PlcLang.Tree.Program

/-! The shape of program trees: what the grammar says about how parts stand together. -/

namespace PlcLang

/-- What may stand in a program for a name and for a literal. -/
structure Wording where
  name : String → Prop
  literal : Literal → Prop

/-- How tight an expression holds together. Whatever is no bare operation holds tighter than any
operator. -/
def Expr.level : Expr → Nat
  | .binary op _ _ => op.level
  | _ => 5

theorem Operator.level_lt {op : Operator} : op.level < 5 := by
  cases op <;> simp [level]

variable (W : Wording)

mutual
/-- Operators group by their levels, and those of one level to the left. -/
def Expr.Shaped : Expr → Prop
  | .literal value => W.literal value
  | .group inner => inner.Shaped
  | .binary op left right =>
    op ∈ Operator.all ∧ op.level ≤ left.level ∧ op.level < right.level ∧ left.Shaped ∧ right.Shaped
  | .access name none => W.name name
  | .access name (some offset) => W.name name ∧ offset.Shaped
  | .call name arguments => W.name name ∧ Expr.AllShaped arguments
  | .list elements => Expr.AllShaped elements

def Expr.AllShaped : List Expr → Prop
  | [] => True
  | e :: rest => e.Shaped ∧ Expr.AllShaped rest
end

mutual
def Stmt.Shaped : Stmt → Prop
  | .expression e => e.Shaped W
  | .declaration name typeName value =>
    W.name name ∧ (∀ t ∈ typeName, W.name t) ∧ ∀ e ∈ value, e.Shaped W
  | .assignment receiver value => receiver.Shaped W ∧ value.Shaped W
  | .conditional condition thenBody elseBody =>
    condition.Shaped W ∧ Stmt.AllShaped thenBody ∧ Stmt.AllShaped elseBody
  | .switch condition cases => condition.Shaped W ∧ Case.AllShaped cases
  | .loop condition body => condition.Shaped W ∧ Stmt.AllShaped body
  | .ret value => value.Shaped W

def Stmt.AllShaped : List Stmt → Prop
  | [] => True
  | s :: rest => s.Shaped ∧ Stmt.AllShaped rest

/-- Branches with a value, and then one without. -/
def Case.AllShaped : List Case → Prop
  | [] => False
  | .mk (some value) body :: rest => value.Shaped W ∧ Stmt.AllShaped body ∧ Case.AllShaped rest
  | .mk none body :: rest => Stmt.AllShaped body ∧ rest = []
end

structure Global.Shaped (g : Global) : Prop where
  name : W.name g.name
  typeName : W.name g.typeName
  value : ∀ e ∈ g.value, e.Shaped W
  given : g.isMutable = false → g.value ≠ none

structure Parameter.Shaped (p : Parameter) : Prop where
  name : W.name p.name
  typeName : W.name p.typeName

structure Function.Shaped (f : Function) : Prop where
  name : W.name f.name
  parameters : ∀ p ∈ f.parameters, p.Shaped W
  returnTypeName : ∀ t ∈ f.returnTypeName, W.name t
  body : Stmt.AllShaped W f.body

structure Program.Shaped (p : Program) : Prop where
  globals : ∀ g ∈ p.globals, g.Shaped W
  functions : ∀ f ∈ p.functions, f.Shaped W

variable {W}

theorem Expr.allShaped_iff {es : List Expr} : Expr.AllShaped W es ↔ ∀ e ∈ es, e.Shaped W := by
  induction es with
  | nil => simp [AllShaped]
  | cons e es ih => simp [AllShaped, ih]

theorem Stmt.allShaped_iff {ss : List Stmt} : Stmt.AllShaped W ss ↔ ∀ s ∈ ss, s.Shaped W := by
  induction ss with
  | nil => simp [AllShaped]
  | cons s ss ih => simp [AllShaped, ih]

end PlcLang
