import Mathlib.Algebra.Group.Int.Defs
import PlcLang.Problem
import PlcLang.Proofs.Tree.Map

/-!
The rules by which a program is typed. They speak of what is declared around a point of the program
and of no order in which anything is visited, and give each tree the same tree with what is found of
its nodes.
-/

namespace PlcLang

/-- A name that a block declares. -/
inductive Declaration where
  | ofVariable (key : Key) (b : Binding)
  | ofFunction (key : Key) (f : Signature)

/-- Names that one block cannot both declare. Functions of one name may differ in how many arguments
they take. -/
inductive Declaration.Clash : Declaration → Declaration → Prop where
  | sameVariable {key : Key} {b c : Binding} : Clash (.ofVariable key b) (.ofVariable key c)
  | sameFunction {key : Key} {f g : Signature} (same : f.arity = g.arity) :
      Clash (.ofFunction key f) (.ofFunction key g)

/-- What is declared before a point of a program in the blocks around it, the innermost first. -/
abbrev Lexical := List (List Declaration)

namespace Lexical

/-- What the innermost block that has any such thing has. -/
inductive Nearest {α : Type} (has : List Declaration → α → Prop) (a : α) : Lexical → Prop where
  | here {block : List Declaration} {outer : Lexical} (this : has block a) :
      Nearest has a (block :: outer)
  | outside {block : List Declaration} {outer : Lexical} (none : ∀ c, ¬ has block c)
      (found : Nearest has a outer) : Nearest has a (block :: outer)

/-- The variable that a name stands for. -/
def Finds (Γ : Lexical) (key : Key) (b : Binding) : Prop :=
  Γ.Nearest (fun block b => .ofVariable key b ∈ block) b

/-- The function that a name stands for with a number of arguments. -/
def FindsFunction (Γ : Lexical) (key : Key) (arity : Nat) (f : Signature) : Prop :=
  Γ.Nearest (fun block f => .ofFunction key f ∈ block ∧ f.arity = arity) f

/-- The innermost block declares one more name. -/
inductive Declares (d : Declaration) : Lexical → Lexical → Prop where
  | intro {block : List Declaration} {outer : Lexical} (alone : ∀ other ∈ block, ¬ d.Clash other) :
      Declares d (block :: outer) ((d :: block) :: outer)

/-- What is declared around every program. -/
def standard : Lexical :=
  [[.ofFunction (.text "print") ⟨none, .string "print", [.any], .nil⟩]]

end Lexical

/-- Where a value of one type may be stored. -/
inductive Assignable : Ty → Ty → Prop where
  | same (t : Ty) : Assignable t t
  | any {t : Ty} (value : t ≠ .nil) : Assignable .any t
  | integer : Assignable .comparable .integer
  | decimal : Assignable .comparable .decimal
  | character : Assignable .comparable .character
  | string : Assignable .comparable .string

/-- The type of a literal. -/
inductive LiteralHas : Literal → Ty → Prop where
  | nil : LiteralHas .nil .nil
  | boolean {b : Bool} : LiteralHas (.boolean b) .boolean
  | integer {n : Int} (least : -2 ^ 31 ≤ n) (most : n ≤ 2 ^ 31 - 1) :
      LiteralHas (.integer n) .integer
  | decimal {d : Decimal} (fits : d.fitsDouble = true) : LiteralHas (.decimal d) .decimal
  | character {content : Json} : LiteralHas (.character content) .character
  | string {text : String} : LiteralHas (.string text) .string

/-- The type of what an operator makes of operands of two types. -/
inductive Applies : Operator → Ty → Ty → Ty → Prop where
  | logic {op : Operator} (logical : op ∈ [.and, .or]) : Applies op .boolean .boolean .boolean
  | comparison {op : Operator} {t : Ty} (compares : op ∈ [.less, .greater, .equal, .unequal])
      (ordered : Assignable .comparable t) : Applies op t t .boolean
  | joinLeft {t : Ty} : Applies .plus .string t .string
  | joinRight {t : Ty} : Applies .plus t .string .string
  | arithmetic {op : Operator} {t : Ty} (computes : op ∈ [.plus, .minus, .times, .divide])
      (number : t ∈ [.integer, .decimal]) : Applies op t t t
  | power : Applies .power .integer .integer .integer

/-- A type name that may be left out. -/
inductive NamesType : Json → Option Ty → Prop where
  | leftOut : NamesType .null none
  | named (t : Ty) : NamesType (.string t.name) (some t)

/-- The type of a variable, from the one that its declaration names and that of its first value. -/
inductive VariableType : Option Ty → Option Ty → Ty → Prop where
  | declared (t : Ty) : VariableType (some t) none t
  | adopted (t : Ty) : VariableType none (some t) t
  | fitting {t u : Ty} (fits : Assignable t u) : VariableType (some t) (some u) t

mutual
/-- An expression has a type. -/
inductive Infers (Γ : Lexical) : Node Label → Node Annotation → Ty → Prop where
  | literal {label : Label} {value : Literal} {t : Ty} (has : LiteralHas value t) :
      Infers Γ (.literal label value) (.literal { type := t } value) t
  | group {label inner : Label} {op : Operator} {left right : Node Label} {e : Node Annotation}
      {t : Ty} (inside : Infers Γ (.binary inner op left right) e t) :
      Infers Γ (.group label (.binary inner op left right)) (.group { type := t } e) t
  | binary {label : Label} {op : Operator} {left right : Node Label} {e₁ e₂ : Node Annotation}
      {l r t : Ty} (first : Infers Γ left e₁ l) (second : Infers Γ right e₂ r)
      (applies : Applies op l r t) :
      Infers Γ (.binary label op left right) (.binary { type := t } op e₁ e₂) t
  | access {label : Label} {name : Json} {key : Key} {b : Binding} (named : name.key? = some key)
      (found : Γ.Finds key b) :
      Infers Γ (.access label name .absent) (.access { type := b.type, binding := b } name .absent)
        b.type
  | element {label : Label} {name : Json} {offset : Node Label} {e : Node Annotation} {key : Key}
      {b : Binding} (index : Infers Γ offset e .integer) (named : name.key? = some key)
      (found : Γ.Finds key b) :
      Infers Γ (.access label name offset) (.access { type := b.type, binding := b } name e) b.type
  | call {label : Label} {name : Json} {arguments : List (Node Label)}
      {es : List (Node Annotation)} {key : Key} {f : Signature} (named : name.key? = some key)
      (found : Γ.FindsFunction key arguments.length f)
      (given : InfersArguments Γ arguments es f.parameters) :
      Infers Γ (.call label name (.list arguments))
        (.call { type := f.returns, signature := f } name (.list es)) f.returns
  | missing {label : Label} :
      Infers Γ (.listLiteral label .absent) (.listLiteral { type := Ty.any } .absent) .any
  | list {label : Label} {elements : List (Node Label)} {es : List (Node Annotation)} {t : Ty}
      (inside : InfersElements Γ elements es t) :
      Infers Γ (.listLiteral label (.list elements)) (.listLiteral { type := t } (.list es)) t

/-- There is an argument for each parameter, and its type fits. -/
inductive InfersArguments (Γ : Lexical) :
    List (Node Label) → List (Node Annotation) → List Ty → Prop where
  | nil : InfersArguments Γ [] [] []
  | cons {argument : Node Label} {rest : List (Node Label)} {e : Node Annotation}
      {es : List (Node Annotation)} {t p : Ty} {parameters : List Ty}
      (first : Infers Γ argument e t) (fits : Assignable p t)
      (others : InfersArguments Γ rest es parameters) :
      InfersArguments Γ (argument :: rest) (e :: es) (p :: parameters)

/-- The first element gives a list its type; the others may have any types. -/
inductive InfersElements (Γ : Lexical) :
    List (Node Label) → List (Node Annotation) → Ty → Prop where
  | nil : InfersElements Γ [] [] .any
  | cons {element : Node Label} {rest : List (Node Label)} {e : Node Annotation}
      {es : List (Node Annotation)} {t u : Ty} (first : Infers Γ element e t)
      (others : InfersElements Γ rest es u) : InfersElements Γ (element :: rest) (e :: es) t
end

/-- A first value that may be left out. -/
inductive InfersOptional (Γ : Lexical) : Node Label → Node Annotation → Option Ty → Prop where
  | leftOut : InfersOptional Γ .absent .absent none
  | given {value : Node Label} {e : Node Annotation} {t : Ty} (typed : Infers Γ value e t) :
      InfersOptional Γ value e (some t)

section

variable (check : Nat)

mutual
/-- A statement of a function that returns `returns` is well-typed. The names behind it are those
before it and what it declares. -/
inductive Elaborates (returns : Ty) : Lexical → Node Label → Node Annotation → Lexical → Prop where
  | call {Γ : Lexical} {label : Label} {name : Json} {arguments : Node Label}
      {e : Node Annotation} {t : Ty} (typed : Infers Γ (.call label name arguments) e t) :
      Elaborates returns Γ (.expressionStmt (.call label name arguments)) (.expressionStmt e) Γ
  | declaration {Γ Γ' : Lexical} {label : Label} {name typeName : Json} {value : Node Label}
      {e : Node Annotation} {declared found : Option Ty} {t : Ty} {key : Key}
      (names : NamesType typeName declared) (initial : InfersOptional Γ value e found)
      (type : VariableType declared found t) (named : name.key? = some key)
      (declares : Γ.Declares (.ofVariable key ⟨⟨check, label⟩, name, t, true⟩) Γ') :
      Elaborates returns Γ (.declaration label name typeName value)
        (.declaration { binding := some ⟨⟨check, label⟩, name, t, true⟩ } name typeName e) Γ'
  | assignment {Γ : Lexical} {label : Label} {name : Json} {offset value : Node Label}
      {e₁ e₂ : Node Annotation} {t u : Ty} (target : Infers Γ (.access label name offset) e₁ t)
      (source : Infers Γ value e₂ u) (fits : Assignable t u) :
      Elaborates returns Γ (.assignment (.access label name offset) value) (.assignment e₁ e₂) Γ
  | conditional {Γ Γ₁ Γ₂ : Lexical} {condition first : Node Label}
      {thens elses : List (Node Label)} {e : Node Annotation} {es₁ es₂ : List (Node Annotation)}
      (test : Infers Γ condition e .boolean)
      (chosen : ElaboratesAll returns ([] :: Γ) (first :: thens) es₁ Γ₁)
      (otherwise : ElaboratesAll returns ([] :: Γ) elses es₂ Γ₂) :
      Elaborates returns Γ (.conditional condition (.list (first :: thens)) (.list elses))
        (.conditional e (.list es₁) (.list es₂)) Γ
  | switch {Γ : Lexical} {condition : Node Label} {cases : List (Node Label)}
      {e : Node Annotation} {es : List (Node Annotation)} {t : Ty}
      (subject : Infers Γ condition e t) (branches : ElaboratesCases returns Γ t cases es) :
      Elaborates returns Γ (.switch condition (.list cases)) (.switch e (.list es)) Γ
  | loop {Γ Γ' : Lexical} {condition : Node Label} {statements : List (Node Label)}
      {e : Node Annotation} {es : List (Node Annotation)} (test : Infers Γ condition e .boolean)
      (body : ElaboratesAll returns ([] :: Γ) statements es Γ') :
      Elaborates returns Γ (.loop condition (.list statements)) (.loop e (.list es)) Γ
  | ret {Γ : Lexical} {value : Node Label} {e : Node Annotation} {t : Ty}
      (typed : Infers Γ value e t) (fits : Assignable returns t) :
      Elaborates returns Γ (.ret value) (.ret e) Γ

/-- Statements one after another, each in scope of those before it. -/
inductive ElaboratesAll (returns : Ty) :
    Lexical → List (Node Label) → List (Node Annotation) → Lexical → Prop where
  | nil {Γ : Lexical} : ElaboratesAll returns Γ [] [] Γ
  | cons {Γ Γ' Γ'' : Lexical} {statement : Node Label} {rest : List (Node Label)}
      {e : Node Annotation} {es : List (Node Annotation)}
      (first : Elaborates returns Γ statement e Γ')
      (others : ElaboratesAll returns Γ' rest es Γ'') :
      ElaboratesAll returns Γ (statement :: rest) (e :: es) Γ''

/-- The branches of a switch over a type. The last is the default and has no value; the others have
values that fit the type. -/
inductive ElaboratesCases (returns : Ty) :
    Lexical → Ty → List (Node Label) → List (Node Annotation) → Prop where
  | default {Γ Γ' : Lexical} {t : Ty} {statements : List (Node Label)}
      {es : List (Node Annotation)} (body : ElaboratesAll returns ([] :: Γ) statements es Γ') :
      ElaboratesCases returns Γ t [.case .absent (.list statements)] [.case .absent (.list es)]
  -- Another branch follows, so this one is not the default.
  | branch {Γ Γ' : Lexical} {t u : Ty} {value next : Node Label}
      {statements rest : List (Node Label)} {e : Node Annotation}
      {es others : List (Node Annotation)} (typed : Infers Γ value e u) (fits : Assignable t u)
      (body : ElaboratesAll returns ([] :: Γ) statements es Γ')
      (more : ElaboratesCases returns Γ t (next :: rest) others) :
      ElaboratesCases returns Γ t (.case value (.list statements) :: next :: rest)
        (.case e (.list es) :: others)
end

/-- Parameters of some types are declared one after another. A global or a declaration may stand
for a parameter; nothing is found of what is below it. -/
inductive ElaboratesParameters :
    Lexical → List (Node Label) → List (Node Annotation) → List Ty → Lexical → Prop where
  | nil {Γ : Lexical} : ElaboratesParameters Γ [] [] [] Γ
  | cons {Γ Γ' Γ'' : Lexical} {p : Node Label} {d : Declared Label} {rest : List (Node Label)}
      {es : List (Node Annotation)} {t : Ty} {types : List Ty} {key : Key}
      (isParameter : p.declared? = some d) (typed : d.typeName = .string t.name)
      (named : d.name.key? = some key)
      (declares : Γ.Declares (.ofVariable key ⟨⟨check, d.label⟩, d.name, t, true⟩) Γ')
      (others : ElaboratesParameters Γ' rest es types Γ'') :
      ElaboratesParameters Γ (p :: rest)
        (p.map (fun label =>
          if label = d.label then { binding := some ⟨⟨check, d.label⟩, d.name, t, true⟩ } else {})
          :: es)
        (t :: types) Γ''

/-- A function is visible in its own body, whose statements share a block with its parameters. -/
inductive ElaboratesFunction : Lexical → Node Label → Node Annotation → Lexical → Prop where
  | intro {Γ Γ' inside last : Lexical} {label : Label} {name returnTypeName : Json}
      {parameters statements : List (Node Label)} {ps es : List (Node Annotation)}
      {types : List Ty} {returns : Option Ty} {key : Key} (named : name.key? = some key)
      (names : NamesType returnTypeName returns)
      (declares : Γ.Declares
        (.ofFunction key ⟨some ⟨check, label⟩, name, types, returns.getD .nil⟩) Γ')
      (takes : ElaboratesParameters check ([] :: Γ') parameters ps types inside)
      (body : ElaboratesAll check (returns.getD .nil) inside statements es last) :
      ElaboratesFunction Γ
        (.function label name (.list parameters) returnTypeName (.list statements))
        (.function { signature := some ⟨some ⟨check, label⟩, name, types, returns.getD .nil⟩ }
          name (.list ps) returnTypeName (.list es)) Γ'

/-- Functions are visible to those after them. -/
inductive ElaboratesFunctions :
    Lexical → List (Node Label) → List (Node Annotation) → Lexical → Prop where
  | nil {Γ : Lexical} : ElaboratesFunctions Γ [] [] Γ
  | cons {Γ Γ' Γ'' : Lexical} {f : Node Label} {rest : List (Node Label)} {e : Node Annotation}
      {es : List (Node Annotation)} (first : ElaboratesFunction check Γ f e Γ')
      (others : ElaboratesFunctions Γ' rest es Γ'') :
      ElaboratesFunctions Γ (f :: rest) (e :: es) Γ''

inductive ElaboratesGlobals :
    Lexical → List (Node Label) → List (Node Annotation) → Lexical → Prop where
  | nil {Γ : Lexical} : ElaboratesGlobals Γ [] [] Γ
  | cons {Γ Γ' Γ'' : Lexical} {label : Label} {name typeName : Json} {isMutable : Bool}
      {value : Node Label} {rest : List (Node Label)} {e : Node Annotation}
      {es : List (Node Annotation)} {declared found : Option Ty} {t : Ty} {key : Key}
      (names : NamesType typeName declared) (initial : InfersOptional Γ value e found)
      (type : VariableType declared found t) (named : name.key? = some key)
      (declares : Γ.Declares (.ofVariable key ⟨⟨check, label⟩, name, t, isMutable⟩) Γ')
      (others : ElaboratesGlobals Γ' rest es Γ'') :
      ElaboratesGlobals Γ (.global label name isMutable typeName value :: rest)
        (.global { binding := some ⟨⟨check, label⟩, name, t, isMutable⟩ } name isMutable typeName e
          :: es) Γ''

/-- A function can be what a program starts with. Its result type is given by this name. -/
inductive Node.IsMain : Node Label → Json → Prop where
  | intro {label : Label} {returnTypeName : Json} {statements : Node Label} :
      IsMain (.function label (.string "main") (.list []) returnTypeName statements) returnTypeName

/-- A program is well-typed: its globals, in scope of which are its functions, and there is a
`main`. -/
inductive ElaboratesProgram : Node Label → Node Annotation → Prop where
  | intro {Γ Γ' : Lexical} {globals functions : List (Node Label)}
      {gs fs : List (Node Annotation)} (first : ElaboratesGlobals check .standard globals gs Γ)
      (others : ElaboratesFunctions check Γ functions fs Γ')
      (starts : ∃ f ∈ functions, ∃ returnTypeName, f.IsMain returnTypeName)
      (returns : ∀ f ∈ functions, ∀ returnTypeName, f.IsMain returnTypeName →
        returnTypeName = .null ∨ returnTypeName = .string "Integer") :
      ElaboratesProgram (.source (.list globals) (.list functions))
        (.source (.list gs) (.list fs))

end

end PlcLang
