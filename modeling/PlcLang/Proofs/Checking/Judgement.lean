import PlcLang.Checker.Program
import PlcLang.Proofs.Tree.Parts

namespace PlcLang

/-- The type that was found for an expression. -/
def Annotations.typeOf (found : Annotations) : Node Label → Option Ty
  | .literal label _ => (found.of label).type
  | .group label _ => (found.of label).type
  | .binary label _ _ _ => (found.of label).type
  | .access label _ _ => (found.of label).type
  | .call label _ _ => (found.of label).type
  | .listLiteral label _ => (found.of label).type
  | _ => none

/-- A node does without lists, gives whatever it declares a first value unless that is nil, returns
from a function what the function says, and orders no values of type `Comparable`. -/
def Node.Disciplined (found : Annotations) : Node Label → Prop
  | .listLiteral _ _ => False
  | .access _ _ offset => offset.isAbsent = true
  | .global _ _ _ typeName value => value.isAbsent = true → typeName = .string Ty.nil.name
  | .declaration _ _ typeName value => value.isAbsent = true → typeName = .string Ty.nil.name
  | .function _ _ _ returnTypeName statements =>
    returnTypeName = .null ∨ returnTypeName = .string Ty.nil.name ∨
      statements.alwaysReturns = true
  | .binary _ op left right =>
    op = .less ∨ op = .greater →
      ¬ (found.typeOf left = some .comparable ∧ found.typeOf right = some .comparable)
  | _ => True

/-- What is asked of a program besides that the checker accepts it. -/
structure Demands where
  /-- Whatever is declared has a value of its type, lists are not used, and functions return what
  they say. -/
  typed : Prop
  /-- No loop declares a name that is visible at it. -/
  clear : Prop

/-- A variable becomes known in the innermost block. Nothing in scope has its identity. -/
structure Context.Adds (Γ : Context) (key : Key) (b : Binding) (Γ' : Context) : Prop where
  added : Γ.addVariable key b = some Γ'
  fresh : ∀ block ∈ Γ.blocks, ∀ k c, block.vars.lookup k = some c → c.id ≠ b.id

section

variable (D : Demands) (found : Annotations)

mutual
/-- An expression has a type, and `found` has it and what the names of its parts refer to. -/
inductive Typed : Context → Node Label → Ty → Prop where
  | literal {Γ : Context} {label : Label} {value : Literal} {t : Ty}
      (fits : value.check (.literal label value) = .ok t)
      (noted : (found.of label).type = some t) : Typed Γ (.literal label value) t
  | group {Γ : Context} {label : Label} {inner : Node Label} {t : Ty}
      (inside : Typed Γ inner t) (noted : (found.of label).type = some t) :
      Typed Γ (.group label inner) t
  | binary {Γ : Context} {label : Label} {op : Operator} {left right : Node Label} {l r t : Ty}
      (first : Typed Γ left l) (second : Typed Γ right r)
      (fits : binaryType op left right (.binary label op left right) l r = .ok t)
      (ordered : D.typed → op = .less ∨ op = .greater → l ≠ .comparable)
      (noted : (found.of label).type = some t) : Typed Γ (.binary label op left right) t
  | access {Γ : Context} {label : Label} {name : Json} {key : Key} {b : Binding}
      (isName : name.key? = some key) (inScope : Γ.findVariable key = some b)
      (bound : (found.of label).binding = some b)
      (noted : (found.of label).type = some b.type) :
      Typed Γ (.access label name .absent) b.type
  | element {Γ : Context} {label : Label} {name : Json} {offset : Node Label} {key : Key}
      {b : Binding} (listed : ¬ D.typed) (given : offset.isAbsent = false)
      (index : Typed Γ offset .integer)
      (isName : name.key? = some key) (inScope : Γ.findVariable key = some b)
      (bound : (found.of label).binding = some b)
      (noted : (found.of label).type = some b.type) :
      Typed Γ (.access label name offset) b.type
  | call {Γ : Context} {label : Label} {name : Json} {arguments : List (Node Label)} {key : Key}
      {f : Signature} (isName : name.key? = some key)
      (inScope : Γ.findFunction key arguments.length = some f)
      (given : TypedArguments Γ arguments f.parameters)
      (noted : (found.of label).type = some f.returns) :
      Typed Γ (.call label name (.list arguments)) f.returns
  | missing {Γ : Context} {label : Label} (listed : ¬ D.typed)
      (noted : (found.of label).type = some .any) : Typed Γ (.listLiteral label .absent) .any
  | list {Γ : Context} {label : Label} {elements : List (Node Label)} {t : Ty}
      (listed : ¬ D.typed) (inside : TypedElements Γ elements t)
      (noted : (found.of label).type = some t) : Typed Γ (.listLiteral label (.list elements)) t

/-- Each argument fits its parameter. -/
inductive TypedArguments : Context → List (Node Label) → List Ty → Prop where
  | nil {Γ : Context} : TypedArguments Γ [] []
  | cons {Γ : Context} {argument : Node Label} {rest : List (Node Label)} {t p : Ty}
      {parameters : List Ty} (first : Typed Γ argument t) (fits : p.accepts t = true)
      (others : TypedArguments Γ rest parameters) :
      TypedArguments Γ (argument :: rest) (p :: parameters)

/-- The elements of a list, typed by the first. -/
inductive TypedElements : Context → List (Node Label) → Ty → Prop where
  | nil {Γ : Context} : TypedElements Γ [] .any
  | cons {Γ : Context} {e : Node Label} {rest : List (Node Label)} {t u : Ty}
      (first : Typed Γ e t) (others : TypedElements Γ rest u) : TypedElements Γ (e :: rest) t
end

/-- What a variable of a type begins with. -/
inductive Initial (Γ : Context) : Node Label → Ty → Prop where
  | none {t : Ty} (empty : D.typed → t = .nil) : Initial Γ .absent t
  | value {value : Node Label} {t u : Ty} (given : value.isAbsent = false)
      (typed : Typed D found Γ value u) (fits : t.accepts u = true) : Initial Γ value t

mutual
/-- A statement of a function that returns `returns` fits the names in scope, and leads to those in
scope behind it. -/
inductive Checked (returns : Ty) : Context → Node Label → Context → Prop where
  | expression {Γ : Context} {e : Node Label} {t : Ty} (typed : Typed D found Γ e t) :
      Checked returns Γ (.expressionStmt e) Γ
  | declaration {Γ Γ' : Context} {label : Label} {name typeName : Json} {value : Node Label}
      {key : Key} {b : Binding} (initial : Initial D found Γ value b.type)
      (isName : name.key? = some key) (adds : Γ.Adds key b Γ') (here : b.id.label = label)
      (bound : (found.of label).binding = some b) :
      Checked returns Γ (.declaration label name typeName value) Γ'
  | assignment {Γ : Context} {label : Label} {name : Json} {offset value : Node Label} {t u : Ty}
      (target : Typed D found Γ (.access label name offset) t)
      (source : Typed D found Γ value u) (fits : t.accepts u = true) :
      Checked returns Γ (.assignment (.access label name offset) value) Γ
  | conditional {Γ Γ₁ Γ₂ : Context} {condition : Node Label}
      {thenStatements elseStatements : List (Node Label)}
      (test : Typed D found Γ condition .boolean)
      (thenChecked : CheckedAll returns Γ.child thenStatements Γ₁)
      (elseChecked : CheckedAll returns Γ.child elseStatements Γ₂) :
      Checked returns Γ (.conditional condition (.list thenStatements) (.list elseStatements)) Γ
  | switch {Γ : Context} {condition : Node Label} {cases : List (Node Label)} {t : Ty}
      (subject : Typed D found Γ condition t) (branches : CheckedCases returns Γ t cases) :
      Checked returns Γ (.switch condition (.list cases)) Γ
  | loop {Γ Γ' : Context} {condition : Node Label} {statements : List (Node Label)}
      (test : Typed D found Γ condition .boolean)
      (clear : D.clear → ∀ key ∈ Node.allDeclares statements, Γ.findVariable key = none)
      (body : CheckedAll returns Γ.child statements Γ') :
      Checked returns Γ (.loop condition (.list statements)) Γ
  | ret {Γ : Context} {value : Node Label} {t : Ty} (typed : Typed D found Γ value t)
      (fits : returns.accepts t = true) : Checked returns Γ (.ret value) Γ

/-- Statements in turn. -/
inductive CheckedAll (returns : Ty) : Context → List (Node Label) → Context → Prop where
  | nil {Γ : Context} : CheckedAll returns Γ [] Γ
  | cons {Γ Γ' Γ'' : Context} {statement : Node Label} {rest : List (Node Label)}
      (first : Checked returns Γ statement Γ') (others : CheckedAll returns Γ' rest Γ'') :
      CheckedAll returns Γ (statement :: rest) Γ''

/-- The branches of a switch over a type: the last is the default. -/
inductive CheckedCases (returns : Ty) : Context → Ty → List (Node Label) → Prop where
  | last {Γ Γ' : Context} {t : Ty} {statements : List (Node Label)}
      (body : CheckedAll returns Γ.child statements Γ') :
      CheckedCases returns Γ t [.case .absent (.list statements)]
  | cons {Γ Γ' : Context} {t u : Ty} {value : Node Label} {statements rest : List (Node Label)}
      (given : value.isAbsent = false) (typed : Typed D found Γ value u)
      (fits : t.accepts u = true) (body : CheckedAll returns Γ.child statements Γ')
      (others : CheckedCases returns Γ t rest) :
      CheckedCases returns Γ t (.case value (.list statements) :: rest)
end

/-- Parameters become variables one after another. -/
inductive Bound : Context → List (Declared Label × Ty) → Context → Prop where
  | nil {Γ : Context} : Bound Γ [] Γ
  | cons {Γ Γ' Γ'' : Context} {p : Declared Label} {key : Key} {b : Binding}
      {rest : List (Declared Label × Ty)} (isName : p.name.key? = some key)
      (adds : Γ.Adds key b Γ') (here : b.id.label = p.label)
      (bound : (found.of p.label).binding = some b) (others : Bound Γ' rest Γ'') :
      Bound Γ ((p, b.type) :: rest) Γ''

inductive CheckedGlobal : Context → Node Label → Context → Prop where
  | intro {Γ Γ' : Context} {label : Label} {name typeName : Json} {isMutable : Bool}
      {value : Node Label} {key : Key} {b : Binding} (initial : Initial D found Γ value b.type)
      (isName : name.key? = some key) (adds : Γ.Adds key b Γ') (here : b.id.label = label)
      (bound : (found.of label).binding = some b) :
      CheckedGlobal Γ (.global label name isMutable typeName value) Γ'

inductive CheckedGlobals : Context → List (Node Label) → Context → Prop where
  | nil {Γ : Context} : CheckedGlobals Γ [] Γ
  | cons {Γ Γ' Γ'' : Context} {g : Node Label} {rest : List (Node Label)}
      (first : CheckedGlobal D found Γ g Γ') (others : CheckedGlobals Γ' rest Γ'') :
      CheckedGlobals Γ (g :: rest) Γ''

/-- The code of a function fits the names known where it is defined. -/
inductive CheckedBody (Γ : Context) (parameters : List (Declared Label × Ty)) (returns : Ty)
    (statements : List (Node Label)) : Prop where
  | intro {inside last : Context} (binds : Bound found Γ.child parameters inside)
      (body : CheckedAll D found returns inside statements last)
      (ends : D.typed → returns = .nil ∨ Node.lastReturns statements = true)

/-- A function is known to its own code and to those after it. -/
inductive CheckedFunction : Context → Node Label → Context → Prop where
  | intro {Γ Γ' : Context} {label : Label} {name returnTypeName : Json}
      {parameters statements : List (Node Label)} {header : List (Declared Label × Ty)}
      {returns : Option Ty} {key : Key} {f : Signature}
      (headed : (Node.function label name (.list parameters) returnTypeName
        (.list statements)).headerTypes parameters = .ok header)
      (returning : resolveOptional returnTypeName (.function label name (.list parameters)
        returnTypeName (.list statements)) = .ok returns)
      (isName : name.key? = some key) (own : f.id.isSome = true)
      (takes : f.parameters = header.map (·.2)) (gives : f.returns = returns.getD .nil)
      (added : Γ.addFunction key f = some Γ')
      (body : CheckedBody D found Γ' header f.returns statements) :
      CheckedFunction Γ (.function label name (.list parameters) returnTypeName
        (.list statements)) Γ'

inductive CheckedFunctions : Context → List (Node Label) → Context → Prop where
  | nil {Γ : Context} : CheckedFunctions Γ [] Γ
  | cons {Γ Γ' Γ'' : Context} {f : Node Label} {rest : List (Node Label)}
      (first : CheckedFunction D found Γ f Γ') (others : CheckedFunctions Γ' rest Γ'') :
      CheckedFunctions Γ (f :: rest) Γ''

/-- A whole program on its own: `globals` are the names known behind its globals, `all` those known
at its end. -/
inductive CheckedProgram : Node Label → Context → Context → Prop where
  | intro {globals functions : List (Node Label)} {Γ Γ' : Context} {f : Signature}
      (first : CheckedGlobals D found ⟨.standard, []⟩ globals Γ)
      (others : CheckedFunctions D found Γ functions Γ')
      (main : Γ'.inner.functions.lookup (.text "main", 0) = some f)
      (nullary : f.parameters = []) :
      CheckedProgram (.source (.list globals) (.list functions)) Γ Γ'

end

end PlcLang
