import PlcLang.Problem

namespace PlcLang

variable {α : Type}

mutual
/-- A property holds of a node and of all nodes below it. -/
def Node.Every (p : Node α → Prop) : Node α → Prop
  | .absent => p .absent
  | .list items => p (.list items) ∧ Node.EveryOne p items
  | .source globals functions => p (.source globals functions) ∧ globals.Every p ∧ functions.Every p
  | .global label name isMutable typeName value =>
    p (.global label name isMutable typeName value) ∧ value.Every p
  | .parameter label name typeName => p (.parameter label name typeName)
  | .function label name parameters returnTypeName statements =>
    p (.function label name parameters returnTypeName statements) ∧ parameters.Every p ∧
      statements.Every p
  | .expressionStmt expression => p (.expressionStmt expression) ∧ expression.Every p
  | .declaration label name typeName value =>
    p (.declaration label name typeName value) ∧ value.Every p
  | .assignment receiver value => p (.assignment receiver value) ∧ receiver.Every p ∧ value.Every p
  | .conditional condition thenStatements elseStatements =>
    p (.conditional condition thenStatements elseStatements) ∧ condition.Every p ∧
      thenStatements.Every p ∧ elseStatements.Every p
  | .case value statements => p (.case value statements) ∧ value.Every p ∧ statements.Every p
  | .switch condition cases => p (.switch condition cases) ∧ condition.Every p ∧ cases.Every p
  | .loop condition statements =>
    p (.loop condition statements) ∧ condition.Every p ∧ statements.Every p
  | .ret value => p (.ret value) ∧ value.Every p
  | .literal label value => p (.literal label value)
  | .group label expression => p (.group label expression) ∧ expression.Every p
  | .binary label op left right => p (.binary label op left right) ∧ left.Every p ∧ right.Every p
  | .access label name offset => p (.access label name offset) ∧ offset.Every p
  | .call label name arguments => p (.call label name arguments) ∧ arguments.Every p
  | .listLiteral label elements => p (.listLiteral label elements) ∧ elements.Every p

def Node.EveryOne (p : Node α → Prop) : List (Node α) → Prop
  | [] => True
  | n :: rest => n.Every p ∧ Node.EveryOne p rest
end

mutual
/-- What holds of all nodes holds of those of a tree. -/
theorem Node.every {p : Node α → Prop} (h : ∀ n, p n) : (n : Node α) → n.Every p
  | .absent => h _
  | .list items => ⟨h _, Node.everyOne h items⟩
  | .source globals functions => ⟨h _, Node.every h globals, Node.every h functions⟩
  | .global _ _ _ _ value => ⟨h _, Node.every h value⟩
  | .parameter .. => h _
  | .function _ _ parameters _ statements =>
    ⟨h _, Node.every h parameters, Node.every h statements⟩
  | .expressionStmt expression => ⟨h _, Node.every h expression⟩
  | .declaration _ _ _ value => ⟨h _, Node.every h value⟩
  | .assignment receiver value => ⟨h _, Node.every h receiver, Node.every h value⟩
  | .conditional condition thenStatements elseStatements =>
    ⟨h _, Node.every h condition, Node.every h thenStatements, Node.every h elseStatements⟩
  | .case value statements => ⟨h _, Node.every h value, Node.every h statements⟩
  | .switch condition cases => ⟨h _, Node.every h condition, Node.every h cases⟩
  | .loop condition statements => ⟨h _, Node.every h condition, Node.every h statements⟩
  | .ret value => ⟨h _, Node.every h value⟩
  | .literal .. => h _
  | .group _ expression => ⟨h _, Node.every h expression⟩
  | .binary _ _ left right => ⟨h _, Node.every h left, Node.every h right⟩
  | .access _ _ offset => ⟨h _, Node.every h offset⟩
  | .call _ _ arguments => ⟨h _, Node.every h arguments⟩
  | .listLiteral _ elements => ⟨h _, Node.every h elements⟩

theorem Node.everyOne {p : Node α → Prop} (h : ∀ n, p n) :
    (ns : List (Node α)) → Node.EveryOne p ns
  | [] => trivial
  | n :: rest => ⟨Node.every h n, Node.everyOne h rest⟩
end

mutual
theorem Node.Every.imp {p q : Node α → Prop} (h : ∀ n, p n → q n) :
    (n : Node α) → n.Every p → n.Every q
  | .absent, every => h _ every
  | .list items, ⟨here, below⟩ => ⟨h _ here, Node.EveryOne.imp h items below⟩
  | .source globals functions, ⟨here, first, second⟩ =>
    ⟨h _ here, Every.imp h globals first, Every.imp h functions second⟩
  | .global _ _ _ _ value, ⟨here, below⟩ => ⟨h _ here, Every.imp h value below⟩
  | .parameter .., every => h _ every
  | .function _ _ parameters _ statements, ⟨here, first, second⟩ =>
    ⟨h _ here, Every.imp h parameters first, Every.imp h statements second⟩
  | .expressionStmt expression, ⟨here, below⟩ => ⟨h _ here, Every.imp h expression below⟩
  | .declaration _ _ _ value, ⟨here, below⟩ => ⟨h _ here, Every.imp h value below⟩
  | .assignment receiver value, ⟨here, first, second⟩ =>
    ⟨h _ here, Every.imp h receiver first, Every.imp h value second⟩
  | .conditional condition thenStatements elseStatements, ⟨here, first, second, third⟩ =>
    ⟨h _ here, Every.imp h condition first, Every.imp h thenStatements second,
      Every.imp h elseStatements third⟩
  | .case value statements, ⟨here, first, second⟩ =>
    ⟨h _ here, Every.imp h value first, Every.imp h statements second⟩
  | .switch condition cases, ⟨here, first, second⟩ =>
    ⟨h _ here, Every.imp h condition first, Every.imp h cases second⟩
  | .loop condition statements, ⟨here, first, second⟩ =>
    ⟨h _ here, Every.imp h condition first, Every.imp h statements second⟩
  | .ret value, ⟨here, below⟩ => ⟨h _ here, Every.imp h value below⟩
  | .literal .., every => h _ every
  | .group _ expression, ⟨here, below⟩ => ⟨h _ here, Every.imp h expression below⟩
  | .binary _ _ left right, ⟨here, first, second⟩ =>
    ⟨h _ here, Every.imp h left first, Every.imp h right second⟩
  | .access _ _ offset, ⟨here, below⟩ => ⟨h _ here, Every.imp h offset below⟩
  | .call _ _ arguments, ⟨here, below⟩ => ⟨h _ here, Every.imp h arguments below⟩
  | .listLiteral _ elements, ⟨here, below⟩ => ⟨h _ here, Every.imp h elements below⟩

theorem Node.EveryOne.imp {p q : Node α → Prop} (h : ∀ n, p n → q n) :
    (ns : List (Node α)) → Node.EveryOne p ns → Node.EveryOne q ns
  | [], _ => trivial
  | n :: rest, ⟨first, others⟩ => ⟨Node.Every.imp h n first, EveryOne.imp h rest others⟩
end

mutual
/-- Two properties that hold of all nodes of a tree hold of each together. -/
theorem Node.Every.and {p q : Node α → Prop} :
    (n : Node α) → n.Every p → n.Every q → n.Every fun m => p m ∧ q m
  | .absent, first, second => ⟨first, second⟩
  | .list items, ⟨first, below⟩, ⟨second, below'⟩ =>
    ⟨⟨first, second⟩, EveryOne.and items below below'⟩
  | .source globals functions, ⟨first, a, b⟩, ⟨second, a', b'⟩ =>
    ⟨⟨first, second⟩, Every.and globals a a', Every.and functions b b'⟩
  | .global _ _ _ _ value, ⟨first, a⟩, ⟨second, a'⟩ => ⟨⟨first, second⟩, Every.and value a a'⟩
  | .parameter .., first, second => ⟨first, second⟩
  | .function _ _ parameters _ statements, ⟨first, a, b⟩, ⟨second, a', b'⟩ =>
    ⟨⟨first, second⟩, Every.and parameters a a', Every.and statements b b'⟩
  | .expressionStmt expression, ⟨first, a⟩, ⟨second, a'⟩ =>
    ⟨⟨first, second⟩, Every.and expression a a'⟩
  | .declaration _ _ _ value, ⟨first, a⟩, ⟨second, a'⟩ =>
    ⟨⟨first, second⟩, Every.and value a a'⟩
  | .assignment receiver value, ⟨first, a, b⟩, ⟨second, a', b'⟩ =>
    ⟨⟨first, second⟩, Every.and receiver a a', Every.and value b b'⟩
  | .conditional condition thenStatements elseStatements, ⟨first, a, b, c⟩, ⟨second, a', b', c'⟩ =>
    ⟨⟨first, second⟩, Every.and condition a a', Every.and thenStatements b b',
      Every.and elseStatements c c'⟩
  | .case value statements, ⟨first, a, b⟩, ⟨second, a', b'⟩ =>
    ⟨⟨first, second⟩, Every.and value a a', Every.and statements b b'⟩
  | .switch condition cases, ⟨first, a, b⟩, ⟨second, a', b'⟩ =>
    ⟨⟨first, second⟩, Every.and condition a a', Every.and cases b b'⟩
  | .loop condition statements, ⟨first, a, b⟩, ⟨second, a', b'⟩ =>
    ⟨⟨first, second⟩, Every.and condition a a', Every.and statements b b'⟩
  | .ret value, ⟨first, a⟩, ⟨second, a'⟩ => ⟨⟨first, second⟩, Every.and value a a'⟩
  | .literal .., first, second => ⟨first, second⟩
  | .group _ expression, ⟨first, a⟩, ⟨second, a'⟩ => ⟨⟨first, second⟩, Every.and expression a a'⟩
  | .binary _ _ left right, ⟨first, a, b⟩, ⟨second, a', b'⟩ =>
    ⟨⟨first, second⟩, Every.and left a a', Every.and right b b'⟩
  | .access _ _ offset, ⟨first, a⟩, ⟨second, a'⟩ => ⟨⟨first, second⟩, Every.and offset a a'⟩
  | .call _ _ arguments, ⟨first, a⟩, ⟨second, a'⟩ => ⟨⟨first, second⟩, Every.and arguments a a'⟩
  | .listLiteral _ elements, ⟨first, a⟩, ⟨second, a'⟩ =>
    ⟨⟨first, second⟩, Every.and elements a a'⟩

theorem Node.EveryOne.and {p q : Node α → Prop} : (ns : List (Node α)) →
    Node.EveryOne p ns → Node.EveryOne q ns → Node.EveryOne (fun m => p m ∧ q m) ns
  | [], _, _ => trivial
  | n :: rest, ⟨a, b⟩, ⟨a', b'⟩ => ⟨Node.Every.and n a a', EveryOne.and rest b b'⟩
end

theorem Node.EveryOne.mem {p : Node α → Prop} {n : Node α} {ns : List (Node α)}
    (h : Node.EveryOne p ns) (mem : n ∈ ns) : n.Every p := by
  induction ns with
  | nil => cases mem
  | cons m rest ih =>
    rcases List.mem_cons.1 mem with rfl | mem
    · exact h.1
    · exact ih h.2 mem

mutual
/-- What holds of all nodes without labels holds of the nodes of the labelled tree. -/
theorem Node.Every.ofPlain {p : Node Unit → Prop} :
    (n : Node α) → n.plain.Every p → n.Every fun m => p m.plain
  | .absent, every => every
  | .list items, ⟨here, below⟩ => ⟨here, EveryOne.ofPlain items below⟩
  | .source globals functions, ⟨here, first, second⟩ =>
    ⟨here, Every.ofPlain globals first, Every.ofPlain functions second⟩
  | .global _ _ _ _ value, ⟨here, below⟩ => ⟨here, Every.ofPlain value below⟩
  | .parameter .., every => every
  | .function _ _ parameters _ statements, ⟨here, first, second⟩ =>
    ⟨here, Every.ofPlain parameters first, Every.ofPlain statements second⟩
  | .expressionStmt expression, ⟨here, below⟩ => ⟨here, Every.ofPlain expression below⟩
  | .declaration _ _ _ value, ⟨here, below⟩ => ⟨here, Every.ofPlain value below⟩
  | .assignment receiver value, ⟨here, first, second⟩ =>
    ⟨here, Every.ofPlain receiver first, Every.ofPlain value second⟩
  | .conditional condition thenStatements elseStatements, ⟨here, first, second, third⟩ =>
    ⟨here, Every.ofPlain condition first, Every.ofPlain thenStatements second,
      Every.ofPlain elseStatements third⟩
  | .case value statements, ⟨here, first, second⟩ =>
    ⟨here, Every.ofPlain value first, Every.ofPlain statements second⟩
  | .switch condition cases, ⟨here, first, second⟩ =>
    ⟨here, Every.ofPlain condition first, Every.ofPlain cases second⟩
  | .loop condition statements, ⟨here, first, second⟩ =>
    ⟨here, Every.ofPlain condition first, Every.ofPlain statements second⟩
  | .ret value, ⟨here, below⟩ => ⟨here, Every.ofPlain value below⟩
  | .literal .., every => every
  | .group _ expression, ⟨here, below⟩ => ⟨here, Every.ofPlain expression below⟩
  | .binary _ _ left right, ⟨here, first, second⟩ =>
    ⟨here, Every.ofPlain left first, Every.ofPlain right second⟩
  | .access _ _ offset, ⟨here, below⟩ => ⟨here, Every.ofPlain offset below⟩
  | .call _ _ arguments, ⟨here, below⟩ => ⟨here, Every.ofPlain arguments below⟩
  | .listLiteral _ elements, ⟨here, below⟩ => ⟨here, Every.ofPlain elements below⟩

theorem Node.EveryOne.ofPlain {p : Node Unit → Prop} : (ns : List (Node α)) →
    Node.EveryOne p (Node.allPlain ns) → Node.EveryOne (fun m => p m.plain) ns
  | [], _ => trivial
  | n :: rest, ⟨first, others⟩ => ⟨Node.Every.ofPlain n first, EveryOne.ofPlain rest others⟩
end

section

variable {p : Node Label → Prop} {n value : Node Label} {ns : List (Node Label)}

theorem Node.Every.items (h : n.Every p) (listed : n.items = .ok ns) : Node.EveryOne p ns := by
  cases n with
  | list items =>
    cases listed
    exact h.2
  | _ => cases listed

theorem Node.Every.content (h : n.Every p) (given : n.content? = some (.node value)) :
    value.Every p := by
  have inside {v : Node Label} (same : Content.ofNode v = .node value) (hv : v.Every p) :
      value.Every p := by
    cases v <;> cases same <;> exact hv
  cases n with
  | global | declaration | ret => exact inside (Option.some.inj given) h.2
  | assignment => exact inside (Option.some.inj given) h.2.2
  | case => exact inside (Option.some.inj given) h.2.1
  | literal label literal =>
    have given := Option.some.inj given
    unfold Content.ofLiteral at given
    split at given <;> cases given
  | _ => cases given

end

mutual
/-- A statement that ends with a `RETURN` whichever way it goes, or statements of which the last
does. -/
def Node.alwaysReturns : Node α → Bool
  | .ret _ => true
  | .conditional _ thenStatements elseStatements =>
    thenStatements.alwaysReturns && elseStatements.alwaysReturns
  | .switch _ (.list cases) => Node.eachReturns cases
  | .case _ statements => statements.alwaysReturns
  | .list statements => Node.lastReturns statements
  | _ => false

def Node.lastReturns : List (Node α) → Bool
  | [] => false
  | [statement] => statement.alwaysReturns
  | _ :: rest => Node.lastReturns rest

def Node.eachReturns : List (Node α) → Bool
  | [] => true
  | branch :: rest => branch.alwaysReturns && Node.eachReturns rest
end

/-- The name that a statement declares in the block it stands in. -/
def Node.declares : Node α → List Key
  | .declaration _ name _ _ => name.key?.toList
  | _ => []

/-- The names declared directly in some statements. -/
def Node.allDeclares (statements : List (Node α)) : List Key :=
  statements.flatMap Node.declares

/-- The names of globals or parameters. -/
def Node.names : Node α → List Key
  | .list items => items.filterMap fun n => n.declared?.bind (·.name.key?)
  | _ => []

mutual
/-- No loop below a node declares a name directly in its body that is visible at the loop.
`visible` are the names visible at the node. -/
def Node.HidesNothing (visible : List Key) : Node α → Prop
  | .source globals (.list functions) => Node.NoneHides (globals.names ++ visible) functions
  | .function _ _ parameters _ (.list statements) =>
    Node.BodyHidesNothing (parameters.names ++ visible) statements
  | .conditional _ thenStatements elseStatements =>
    thenStatements.HidesNothing visible ∧ elseStatements.HidesNothing visible
  | .case _ statements => statements.HidesNothing visible
  | .switch _ (.list cases) => Node.NoneHides visible cases
  | .loop _ (.list statements) =>
    (∀ key ∈ Node.allDeclares statements, key ∉ visible) ∧
      Node.BodyHidesNothing visible statements
  | .list statements => Node.BodyHidesNothing visible statements
  | _ => True

/-- Statements one after another: each sees what those before it declare. -/
def Node.BodyHidesNothing (visible : List Key) : List (Node α) → Prop
  | [] => True
  | statement :: rest =>
    statement.HidesNothing visible ∧ Node.BodyHidesNothing (statement.declares ++ visible) rest

def Node.NoneHides (visible : List Key) : List (Node α) → Prop
  | [] => True
  | branch :: rest => branch.HidesNothing visible ∧ Node.NoneHides visible rest
end

end PlcLang
