import PlcLang.Proofs.Tree.Labels

namespace PlcLang

variable {α β : Type}

mutual
/-- The same tree with other labels. -/
def Node.map (f : α → β) : Node α → Node β
  | .absent => .absent
  | .list items => .list (Node.mapAll f items)
  | .source globals functions => .source (globals.map f) (functions.map f)
  | .global label name isMutable typeName value =>
    .global (f label) name isMutable typeName (value.map f)
  | .parameter label name typeName => .parameter (f label) name typeName
  | .function label name parameters returnTypeName statements =>
    .function (f label) name (parameters.map f) returnTypeName (statements.map f)
  | .expressionStmt expression => .expressionStmt (expression.map f)
  | .declaration label name typeName value => .declaration (f label) name typeName (value.map f)
  | .assignment receiver value => .assignment (receiver.map f) (value.map f)
  | .conditional condition thenStatements elseStatements =>
    .conditional (condition.map f) (thenStatements.map f) (elseStatements.map f)
  | .case value statements => .case (value.map f) (statements.map f)
  | .switch condition cases => .switch (condition.map f) (cases.map f)
  | .loop condition statements => .loop (condition.map f) (statements.map f)
  | .ret value => .ret (value.map f)
  | .literal label value => .literal (f label) value
  | .group label expression => .group (f label) (expression.map f)
  | .binary label op left right => .binary (f label) op (left.map f) (right.map f)
  | .access label name offset => .access (f label) name (offset.map f)
  | .call label name arguments => .call (f label) name (arguments.map f)
  | .listLiteral label elements => .listLiteral (f label) (elements.map f)

def Node.mapAll (f : α → β) : List (Node α) → List (Node β)
  | [] => []
  | n :: rest => n.map f :: Node.mapAll f rest
end

mutual
theorem Node.plain_map (f : α → β) (n : Node α) : (n.map f).plain = n.plain := by
  match n with
  | .absent | .parameter .. | .literal .. => rfl
  | .list items => exact congrArg Node.list (Node.allPlain_mapAll f items)
  | .source first second | .assignment first second | .case first second | .switch first second
  | .loop first second => exact congrArg₂ _ (first.plain_map f) (second.plain_map f)
  | .binary _ op first second =>
    exact congrArg₂ (Node.binary () op) (first.plain_map f) (second.plain_map f)
  | .function _ name parameters returnTypeName statements =>
    exact congrArg₂ (fun p s => Node.function () name p returnTypeName s)
      (parameters.plain_map f) (statements.plain_map f)
  | .conditional condition thenStatements elseStatements =>
    simp only [Node.map, Node.plain, condition.plain_map f, thenStatements.plain_map f,
      elseStatements.plain_map f]
  | .global _ name isMutable typeName value =>
    exact congrArg (Node.global () name isMutable typeName) (value.plain_map f)
  | .declaration _ name typeName value =>
    exact congrArg (Node.declaration () name typeName) (value.plain_map f)
  | .expressionStmt inner => exact congrArg Node.expressionStmt (inner.plain_map f)
  | .ret inner => exact congrArg Node.ret (inner.plain_map f)
  | .group _ inner => exact congrArg (Node.group ()) (inner.plain_map f)
  | .access _ name offset => exact congrArg (Node.access () name) (offset.plain_map f)
  | .call _ name arguments => exact congrArg (Node.call () name) (arguments.plain_map f)
  | .listLiteral _ elements => exact congrArg (Node.listLiteral ()) (elements.plain_map f)

theorem Node.allPlain_mapAll (f : α → β) (ns : List (Node α)) :
    Node.allPlain (Node.mapAll f ns) = Node.allPlain ns := by
  match ns with
  | [] => rfl
  | n :: rest => exact congrArg₂ List.cons (n.plain_map f) (Node.allPlain_mapAll f rest)
end

mutual
theorem Node.plain_eq (n : Node α) : n.plain = n.map fun _ => () := by
  match n with
  | .absent | .parameter .. | .literal .. => rfl
  | .list items => exact congrArg Node.list (Node.allPlain_eq items)
  | .source first second | .assignment first second | .case first second | .switch first second
  | .loop first second | .binary _ _ first second | .function _ _ first _ second =>
    simp only [Node.plain, Node.map, first.plain_eq, second.plain_eq]
  | .conditional condition thenStatements elseStatements =>
    simp only [Node.plain, Node.map, condition.plain_eq, thenStatements.plain_eq,
      elseStatements.plain_eq]
  | .global _ _ _ _ inner | .declaration _ _ _ inner | .expressionStmt inner | .ret inner
  | .group _ inner | .access _ _ inner | .call _ _ inner | .listLiteral _ inner =>
    simp only [Node.plain, Node.map, inner.plain_eq]

theorem Node.allPlain_eq (ns : List (Node α)) :
    Node.allPlain ns = Node.mapAll (fun _ => ()) ns := by
  match ns with
  | [] => rfl
  | n :: rest => exact congrArg₂ List.cons n.plain_eq (Node.allPlain_eq rest)
end

mutual
theorem Node.labels_map (f : α → β) (n : Node α) : (n.map f).labels = n.labels.map f := by
  match n with
  | .absent | .parameter .. | .literal .. => rfl
  | .list items => exact Node.allLabels_mapAll f items
  | .source first second | .assignment first second | .case first second | .switch first second
  | .loop first second | .function _ _ first _ second | .binary _ _ first second =>
    simp only [Node.map, Node.labels, first.labels_map, second.labels_map, List.map_append,
      List.map_cons]
  | .conditional condition thenStatements elseStatements =>
    simp only [Node.map, Node.labels, condition.labels_map, thenStatements.labels_map,
      elseStatements.labels_map, List.map_append]
  | .global _ _ _ _ inner | .declaration _ _ _ inner | .expressionStmt inner | .ret inner
  | .group _ inner | .access _ _ inner | .call _ _ inner | .listLiteral _ inner =>
    simp only [Node.map, Node.labels, inner.labels_map, List.map_cons]

theorem Node.allLabels_mapAll (f : α → β) (ns : List (Node α)) :
    Node.allLabels (Node.mapAll f ns) = (Node.allLabels ns).map f := by
  match ns with
  | [] => rfl
  | n :: rest =>
    simp only [Node.mapAll, Node.allLabels, n.labels_map, Node.allLabels_mapAll f rest,
      List.map_append]
end

/-- A tree that is taken up later has the same labels behind the others. -/
theorem Node.withLabels_from (n : Node Unit) (first : Label) :
    n.withLabels first =
      ((n.withLabels 0).1.map (first + ·), first + (n.withLabels 0).2) := by
  obtain ⟨_, labels⟩ := n.withLabels_counted 0
  have counted : Counted ((n.withLabels 0).1.map (first + ·)).labels first
      (first + (n.withLabels 0).2) := by
    refine ⟨Nat.le_add_right _ _, ?_⟩
    rw [Node.labels_map, labels, List.map_add_range', Nat.add_sub_cancel_left, Nat.sub_zero,
      Nat.add_zero]
  have same := Node.withLabels_plain _ counted
  rwa [Node.plain_map, Node.plain_withLabels] at same

mutual
/-- Only the labels of a tree count for what it is mapped to. -/
theorem Node.map_congr {f g : α → β} (n : Node α) (same : ∀ label ∈ n.labels, f label = g label) :
    n.map f = n.map g := by
  match n with
  | .absent => rfl
  | .list items => exact congrArg Node.list (Node.mapAll_congr items same)
  | .source first second | .assignment first second | .case first second | .switch first second
  | .loop first second =>
    simp only [Node.labels, List.forall_mem_append] at same
    simp only [Node.map, first.map_congr same.1, second.map_congr same.2]
  | .conditional condition thenStatements elseStatements =>
    simp only [Node.labels, List.forall_mem_append] at same
    simp only [Node.map, condition.map_congr same.1, thenStatements.map_congr same.2.1,
      elseStatements.map_congr same.2.2]
  | .binary _ _ first second | .function _ _ first _ second =>
    simp only [Node.labels, List.forall_mem_cons, List.forall_mem_append] at same
    simp only [Node.map, same.1, first.map_congr same.2.1, second.map_congr same.2.2]
  | .parameter .. | .literal .. =>
    simp only [Node.labels, List.forall_mem_cons] at same
    simp only [Node.map, same.1]
  | .global _ _ _ _ inner | .declaration _ _ _ inner | .group _ inner | .access _ _ inner
  | .call _ _ inner | .listLiteral _ inner =>
    simp only [Node.labels, List.forall_mem_cons] at same
    simp only [Node.map, same.1, inner.map_congr same.2]
  | .expressionStmt inner | .ret inner =>
    simp only [Node.map, inner.map_congr same]

theorem Node.mapAll_congr {f g : α → β} (ns : List (Node α))
    (same : ∀ label ∈ Node.allLabels ns, f label = g label) :
    Node.mapAll f ns = Node.mapAll g ns := by
  match ns with
  | [] => rfl
  | n :: rest =>
    simp only [Node.allLabels, List.forall_mem_append] at same
    exact congrArg₂ List.cons (n.map_congr same.1) (Node.mapAll_congr rest same.2)
end

/-! The parts of a tree with other labels. -/

section

variable (f : α → β) (n : Node α)

theorem Node.mapAll_eq (ns : List (Node α)) : Node.mapAll f ns = ns.map (Node.map f) := by
  induction ns with
  | nil => rfl
  | cons n rest ih => rw [Node.mapAll, ih, List.map_cons]

@[simp]
theorem Node.isAbsent_map : (n.map f).isAbsent = n.isAbsent := by
  cases n <;> rfl

@[simp]
theorem Node.isCall_map : (n.map f).isCall = n.isCall := by
  cases n <;> rfl

@[simp]
theorem Node.isBinary_map : (n.map f).isBinary = n.isBinary := by
  cases n <;> rfl

@[simp]
theorem Node.isAccess_map : (n.map f).isAccess = n.isAccess := by
  cases n <;> rfl

@[simp]
theorem Node.isEmpty_map : (n.map f).isEmpty = n.isEmpty := by
  cases n with
  | list items => cases items <;> rfl
  | _ => rfl

@[simp]
theorem Node.name?_map : (n.map f).name? = n.name? := by
  cases n <;> rfl

def Declared.map (d : Declared α) : Declared β :=
  ⟨f d.label, d.name, d.typeName⟩

theorem Node.declared?_map : (n.map f).declared? = n.declared?.map (Declared.map f) := by
  cases n <;> rfl

/-- Content with other labels. -/
def Content.map : Content α → Content β
  | .nothing => .nothing
  | .node n => .node (n.map f)
  | .bare value => .bare value

theorem Content.ofNode_map : Content.ofNode (n.map f) = (Content.ofNode n).map f := by
  cases n <;> rfl

theorem Node.content?_map : (n.map f).content? = n.content?.map (Content.map f) := by
  cases n with
  | literal _ value =>
    simp only [Node.map, Node.content?, Option.map_some]
    unfold Content.ofLiteral
    split <;> rfl
  | _ => simp [Node.map, Node.content?, Content.ofNode_map]

end

end PlcLang
