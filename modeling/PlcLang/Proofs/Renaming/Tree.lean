import PlcLang.Proofs.Tree.Labels

namespace PlcLang

mutual
/-- The labels of the nodes that declare variables. -/
def Node.declarations {α : Type} : Node α → List α
  | .global label _ _ _ value => label :: value.declarations
  | .parameter label _ _ => [label]
  | .declaration label _ _ value => label :: value.declarations
  | .absent => []
  | .list items => Node.allDeclarations items
  | .source globals functions => globals.declarations ++ functions.declarations
  | .function _ _ parameters _ statements => parameters.declarations ++ statements.declarations
  | .expressionStmt expression => expression.declarations
  | .assignment receiver value => receiver.declarations ++ value.declarations
  | .conditional condition thenStatements elseStatements =>
    condition.declarations ++ (thenStatements.declarations ++ elseStatements.declarations)
  | .case value statements => value.declarations ++ statements.declarations
  | .switch condition cases => condition.declarations ++ cases.declarations
  | .loop condition statements => condition.declarations ++ statements.declarations
  | .ret value => value.declarations
  | .literal .. => []
  | .group _ expression => expression.declarations
  | .binary _ _ left right => left.declarations ++ right.declarations
  | .access _ _ offset => offset.declarations
  | .call _ _ arguments => arguments.declarations
  | .listLiteral _ elements => elements.declarations

def Node.allDeclarations {α : Type} : List (Node α) → List α
  | [] => []
  | n :: rest => n.declarations ++ Node.allDeclarations rest
end

/-- Other names for the variables of a program: one for each declaration. What the checker found
tells for which declaration an access stands. -/
structure Renaming where
  found : Annotations
  name : Label → String

namespace Renaming

/-- The name of the variable that is declared at a label. -/
def declared (r : Renaming) (label : Label) : Json :=
  .string (r.name label)

/-- The name at an access: that of its variable, if the checker found one. -/
def accessed (r : Renaming) (label : Label) (name : Json) : Json :=
  match (r.found.of label).binding with
  | some b => r.declared b.id.label
  | none => name

end Renaming

mutual
/-- The same tree with the other names where it declares variables and where it uses them. -/
def Node.rename (r : Renaming) : Node Label → Node Label
  | .global label _ isMutable typeName value =>
    .global label (r.declared label) isMutable typeName (value.rename r)
  | .parameter label _ typeName => .parameter label (r.declared label) typeName
  | .declaration label _ typeName value =>
    .declaration label (r.declared label) typeName (value.rename r)
  | .access label name offset => .access label (r.accessed label name) (offset.rename r)
  | .absent => .absent
  | .list items => .list (Node.renameAll r items)
  | .source globals functions => .source (globals.rename r) (functions.rename r)
  | .function label name parameters returnTypeName statements =>
    .function label name (parameters.rename r) returnTypeName (statements.rename r)
  | .expressionStmt expression => .expressionStmt (expression.rename r)
  | .assignment receiver value => .assignment (receiver.rename r) (value.rename r)
  | .conditional condition thenStatements elseStatements =>
    .conditional (condition.rename r) (thenStatements.rename r) (elseStatements.rename r)
  | .case value statements => .case (value.rename r) (statements.rename r)
  | .switch condition cases => .switch (condition.rename r) (cases.rename r)
  | .loop condition statements => .loop (condition.rename r) (statements.rename r)
  | .ret value => .ret (value.rename r)
  | .literal label value => .literal label value
  | .group label expression => .group label (expression.rename r)
  | .binary label op left right => .binary label op (left.rename r) (right.rename r)
  | .call label name arguments => .call label name (arguments.rename r)
  | .listLiteral label elements => .listLiteral label (elements.rename r)

def Node.renameAll (r : Renaming) : List (Node Label) → List (Node Label)
  | [] => []
  | n :: rest => n.rename r :: Node.renameAll r rest
end

namespace Node

variable {r : Renaming}

theorem renameAll_eq (ns : List (Node Label)) : renameAll r ns = ns.map (rename r) := by
  induction ns with
  | nil => rfl
  | cons n rest ih => rw [renameAll, ih, List.map_cons]

theorem isAbsent_rename (n : Node Label) : (n.rename r).isAbsent = n.isAbsent := by
  cases n <;> rfl

theorem isCall_rename (n : Node Label) : (n.rename r).isCall = n.isCall := by
  cases n <;> rfl

theorem isBinary_rename (n : Node Label) : (n.rename r).isBinary = n.isBinary := by
  cases n <;> rfl

theorem isAccess_rename (n : Node Label) : (n.rename r).isAccess = n.isAccess := by
  cases n <;> rfl

theorem isEmpty_rename (n : Node Label) : (n.rename r).isEmpty = n.isEmpty := by
  cases n with
  | list items => cases items <;> rfl
  | _ => rfl

end Node

/-- A declaration with the other name. -/
def Declared.rename (r : Renaming) (d : Declared Label) : Declared Label :=
  { d with name := r.declared d.label }

theorem Node.declared?_rename {r : Renaming} (n : Node Label) :
    (n.rename r).declared? = n.declared?.map (Declared.rename r) := by
  cases n <;> rfl

/-- Content with the other names. -/
def Content.rename (r : Renaming) : Content Label → Content Label
  | .nothing => .nothing
  | .node n => .node (n.rename r)
  | .bare value => .bare value

theorem Content.ofNode_rename {r : Renaming} (n : Node Label) :
    Content.ofNode (n.rename r) = (Content.ofNode n).rename r := by
  cases n <;> rfl

theorem Node.content?_rename {r : Renaming} (n : Node Label) :
    (n.rename r).content? = n.content?.map (Content.rename r) := by
  cases n with
  | literal _ value =>
    simp only [Node.rename, Node.content?, Option.map_some]
    unfold Content.ofLiteral
    split <;> rfl
  | _ => simp [Node.rename, Node.content?, Content.ofNode_rename]

mutual
/-- All declarations have labels. -/
theorem Node.declarations_sublist {α : Type} (n : Node α) : n.declarations.Sublist n.labels := by
  match n with
  | .absent => exact .slnil
  | .list items => exact Node.allDeclarations_sublist items
  | .source globals functions =>
    exact globals.declarations_sublist.append functions.declarations_sublist
  | .global _ _ _ _ value => exact value.declarations_sublist.cons_cons _
  | .parameter .. => exact .refl _
  | .function _ _ parameters _ statements =>
    exact (parameters.declarations_sublist.append statements.declarations_sublist).cons _
  | .expressionStmt expression => exact expression.declarations_sublist
  | .declaration _ _ _ value => exact value.declarations_sublist.cons_cons _
  | .assignment receiver value =>
    exact receiver.declarations_sublist.append value.declarations_sublist
  | .conditional condition thenStatements elseStatements =>
    exact condition.declarations_sublist.append
      (thenStatements.declarations_sublist.append elseStatements.declarations_sublist)
  | .case value statements =>
    exact value.declarations_sublist.append statements.declarations_sublist
  | .switch condition cases =>
    exact condition.declarations_sublist.append cases.declarations_sublist
  | .loop condition statements =>
    exact condition.declarations_sublist.append statements.declarations_sublist
  | .ret value => exact value.declarations_sublist
  | .literal .. => exact List.nil_sublist _
  | .group _ expression => exact expression.declarations_sublist.cons _
  | .binary _ _ left right =>
    exact (left.declarations_sublist.append right.declarations_sublist).cons _
  | .access _ _ offset => exact offset.declarations_sublist.cons _
  | .call _ _ arguments => exact arguments.declarations_sublist.cons _
  | .listLiteral _ elements => exact elements.declarations_sublist.cons _

theorem Node.allDeclarations_sublist {α : Type} (ns : List (Node α)) :
    (Node.allDeclarations ns).Sublist (Node.allLabels ns) := by
  match ns with
  | [] => exact .slnil
  | n :: rest => exact n.declarations_sublist.append (Node.allDeclarations_sublist rest)
end

/-! Other names leave the labels alone. -/

mutual
theorem Node.labels_rename {r : Renaming} (n : Node Label) : (n.rename r).labels = n.labels := by
  match n with
  | .absent | .parameter .. | .literal .. => rfl
  | .list items => exact Node.allLabels_rename items
  | .source first second | .assignment first second | .case first second | .switch first second
  | .loop first second =>
    simp only [Node.rename, Node.labels, first.labels_rename, second.labels_rename]
  | .global _ _ _ _ value | .declaration _ _ _ value =>
    simp only [Node.rename, Node.labels, value.labels_rename]
  | .function _ _ parameters _ statements =>
    simp only [Node.rename, Node.labels, parameters.labels_rename, statements.labels_rename]
  | .conditional condition thenStatements elseStatements =>
    simp only [Node.rename, Node.labels, condition.labels_rename, thenStatements.labels_rename,
      elseStatements.labels_rename]
  | .binary _ _ left right =>
    simp only [Node.rename, Node.labels, left.labels_rename, right.labels_rename]
  | .expressionStmt inner | .ret inner | .group _ inner | .access _ _ inner | .call _ _ inner
  | .listLiteral _ inner => simp only [Node.rename, Node.labels, inner.labels_rename]

theorem Node.allLabels_rename {r : Renaming} (ns : List (Node Label)) :
    Node.allLabels (Node.renameAll r ns) = Node.allLabels ns := by
  match ns with
  | [] => rfl
  | n :: rest =>
    simp only [Node.renameAll, Node.allLabels, n.labels_rename, Node.allLabels_rename rest]
end

/-- A tree that was taken up, with other names: taken up anew in the same place it has the same
labels. -/
theorem Node.annotated_rename {r : Renaming} (n : Node Unit) (found : Annotations) :
    ((n.annotated found).tree.rename r).plain.annotated found =
      ⟨(n.annotated found).tree.rename r, (n.annotated found).found⟩ := by
  have counted := n.withLabels_counted found.size
  simp only [Node.annotated]
  generalize n.withLabels found.size = taken at *
  obtain ⟨tree, count⟩ := taken
  have again : (tree.rename r).plain.withLabels found.size = (tree.rename r, count) :=
    Node.withLabels_plain _ (by rw [Node.labels_rename]; exact counted)
  simp only [again]

end PlcLang
