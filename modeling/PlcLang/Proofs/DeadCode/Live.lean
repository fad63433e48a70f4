import PlcLang.Checker.Program
import PlcLang.Proofs.Tree.Map
import PlcLang.Proofs.Values.Faults

/-! Trees without the statements behind a `RETURN`. -/

namespace PlcLang

variable {α β γ : Type}

/-- Statements up to the first `RETURN` among them. -/
def Node.upToReturn : List (Node α) → List (Node α)
  | [] => []
  | .ret value :: _ => [.ret value]
  | first :: rest => first :: upToReturn rest

/-- A slot for statements, up to the first `RETURN` among them. -/
def Node.cut : Node α → Node α
  | .list statements => .list (upToReturn statements)
  | n => n

mutual
/-- The same tree with other labels, and without the statements behind a `RETURN` in its block. -/
def Node.live (f : α → β) : Node α → Node β
  | .absent => .absent
  | .list items => .list (Node.allLive f items)
  | .source globals functions => .source (globals.live f) (functions.live f)
  | .global label name isMutable typeName value =>
    .global (f label) name isMutable typeName (value.live f)
  | .parameter label name typeName => .parameter (f label) name typeName
  | .function label name parameters returnTypeName statements =>
    .function (f label) name (parameters.live f) returnTypeName (statements.live f).cut
  | .expressionStmt expression => .expressionStmt (expression.live f)
  | .declaration label name typeName value => .declaration (f label) name typeName (value.live f)
  | .assignment receiver value => .assignment (receiver.live f) (value.live f)
  | .conditional condition thenStatements elseStatements =>
    .conditional (condition.live f) (thenStatements.live f).cut (elseStatements.live f).cut
  | .case value statements => .case (value.live f) (statements.live f).cut
  | .switch condition cases => .switch (condition.live f) (cases.live f)
  | .loop condition statements => .loop (condition.live f) (statements.live f).cut
  | .ret value => .ret (value.live f)
  | .literal label value => .literal (f label) value
  | .group label expression => .group (f label) (expression.live f)
  | .binary label op left right => .binary (f label) op (left.live f) (right.live f)
  | .access label name offset => .access (f label) name (offset.live f)
  | .call label name arguments => .call (f label) name (arguments.live f)
  | .listLiteral label elements => .listLiteral (f label) (elements.live f)

def Node.allLive (f : α → β) : List (Node α) → List (Node β)
  | [] => []
  | n :: rest => n.live f :: Node.allLive f rest
end

/-- What runs of some statements. -/
def Node.liveBlock (f : α → β) (statements : List (Node α)) : List (Node β) :=
  Node.upToReturn (Node.allLive f statements)

/-! Where a block is cut does not depend on labels. -/

section

variable (g : β → γ)

theorem Node.mapAll_upToReturn (ns : List (Node β)) :
    Node.mapAll g (Node.upToReturn ns) = Node.upToReturn (Node.mapAll g ns) := by
  induction ns with
  | nil => rfl
  | cons n rest ih =>
    cases n with
    | ret => rfl
    | _ => exact congrArg (List.cons _) ih

theorem Node.map_cut (n : Node β) : n.cut.map g = (n.map g).cut := by
  cases n with
  | list items => exact congrArg Node.list (Node.mapAll_upToReturn g items)
  | _ => rfl

mutual
theorem Node.map_live (f : α → β) (n : Node α) : (n.live f).map g = n.live (g ∘ f) := by
  match n with
  | .absent | .parameter .. | .literal .. => rfl
  | .list items => exact congrArg Node.list (Node.mapAll_live f items)
  | .source first second | .assignment first second | .case first second | .switch first second
  | .loop first second | .binary _ _ first second | .function _ _ first _ second =>
    simp only [Node.live, Node.map, Node.map_cut, first.map_live f, second.map_live f,
      Function.comp_apply]
  | .conditional condition thenStatements elseStatements =>
    simp only [Node.live, Node.map, Node.map_cut, condition.map_live f, thenStatements.map_live f,
      elseStatements.map_live f]
  | .global _ _ _ _ inner | .declaration _ _ _ inner | .expressionStmt inner | .ret inner
  | .group _ inner | .access _ _ inner | .call _ _ inner | .listLiteral _ inner =>
    simp only [Node.live, Node.map, inner.map_live f, Function.comp_apply]

theorem Node.mapAll_live (f : α → β) (ns : List (Node α)) :
    Node.mapAll g (Node.allLive f ns) = Node.allLive (g ∘ f) ns := by
  match ns with
  | [] => rfl
  | n :: rest => exact congrArg₂ List.cons (n.map_live f) (Node.mapAll_live f rest)
end

mutual
theorem Node.live_map (f : α → β) (n : Node α) : (n.map f).live g = n.live (g ∘ f) := by
  match n with
  | .absent | .parameter .. | .literal .. => rfl
  | .list items => exact congrArg Node.list (Node.allLive_mapAll f items)
  | .source first second | .assignment first second | .case first second | .switch first second
  | .loop first second | .binary _ _ first second | .function _ _ first _ second =>
    simp only [Node.live, Node.map, first.live_map f, second.live_map f, Function.comp_apply]
  | .conditional condition thenStatements elseStatements =>
    simp only [Node.live, Node.map, condition.live_map f, thenStatements.live_map f,
      elseStatements.live_map f]
  | .global _ _ _ _ inner | .declaration _ _ _ inner | .expressionStmt inner | .ret inner
  | .group _ inner | .access _ _ inner | .call _ _ inner | .listLiteral _ inner =>
    simp only [Node.live, Node.map, inner.live_map f, Function.comp_apply]

theorem Node.allLive_mapAll (f : α → β) (ns : List (Node α)) :
    Node.allLive g (Node.mapAll f ns) = Node.allLive (g ∘ f) ns := by
  match ns with
  | [] => rfl
  | n :: rest => exact congrArg₂ List.cons (n.live_map f) (Node.allLive_mapAll f rest)
end

end

/-! The parts of a tree without such statements. -/

section

variable (f : α → β) (n : Node α)

theorem Node.isAbsent_live : (n.live f).isAbsent = n.isAbsent := by
  cases n <;> rfl

theorem Node.declared?_live : (n.live f).declared? = n.declared?.map (Declared.map f) := by
  cases n <;> rfl

/-- Content without such statements. -/
def Content.live : Content α → Content β
  | .nothing => .nothing
  | .node n => .node (n.live f)
  | .bare value => .bare value

theorem Content.ofNode_live : Content.ofNode (n.live f) = (Content.ofNode n).live f := by
  cases n <;> rfl

theorem Node.content?_live : (n.live f).content? = n.content?.map (Content.live f) := by
  cases n with
  | literal _ value =>
    simp only [Node.live, Node.content?, Option.map_some]
    unfold Content.ofLiteral
    split <;> rfl
  | _ => simp [Node.live, Node.content?, Content.ofNode_live]

end

/-- A fault at a tree without such statements. -/
def Fault.live (f : Label → Label) : Fault → Fault
  | .problem p => .problem ⟨p.cause, p.subject.map (Node.live f)⟩
  | e => e

/-- What comes of a computation over a tree without such statements. -/
def liveResult (f : Label → Label) {α β : Type} (g : α → β) : Except Fault α → Except Fault β
  | .ok a => .ok (g a)
  | .error e => .error (e.live f)

section

variable {f : Label → Label}

theorem liveResult_bind {γ δ : Type} {g : α → β} {x : Except Fault α} {x' : Except Fault β}
    {k : α → Except Fault γ} {k' : β → Except Fault δ} {g' : γ → δ} (hx : x' = liveResult f g x)
    (hk : ∀ a, k' (g a) = liveResult f g' (k a)) : x' >>= k' = liveResult f g' (x >>= k) := by
  subst hx
  cases x with
  | ok a => exact hk a
  | error e => rfl

theorem liveResult_mapM {k k' : α → Except Fault β} (hk : ∀ a, k' a = liveResult f id (k a))
    (l : List α) : l.mapM k' = liveResult f id (l.mapM k) := by
  induction l with
  | nil => rfl
  | cons a l ih =>
    rw [List.mapM_cons, List.mapM_cons]
    exact liveResult_bind (hk a) fun _ => liveResult_bind ih fun _ => rfl

theorem Node.items_live (n : Node Label) :
    (n.live f).items = liveResult f (Node.allLive f) n.items := by
  cases n <;> rfl

theorem Node.items_liveBlock (n : Node Label) :
    (n.live f).cut.items = liveResult f (Node.liveBlock f) n.items := by
  cases n <;> rfl

theorem key_live (name : Json) : name.key = liveResult f id name.key := by
  unfold Json.key
  cases name.key? <;> rfl

theorem resolveType_live (name : Json) (subject : Node Label) :
    resolveType name (subject.live f) = liveResult f id (resolveType name subject) := by
  refine liveResult_bind (key_live name) fun _ => ?_
  cases Ty.ofJson? name <;> rfl

theorem resolveOptional_live (typeName : Json) (subject : Node Label) :
    resolveOptional typeName (subject.live f) =
      liveResult f id (resolveOptional typeName subject) := by
  unfold resolveOptional
  split
  · rfl
  · exact liveResult_bind (resolveType_live typeName subject) fun _ => rfl

theorem headerTypes_live (function : Node Label) (parameters : List (Node Label)) :
    (function.live f).headerTypes (Node.allLive f parameters) =
      liveResult f (List.map (Prod.map (Declared.map f) id))
        (function.headerTypes parameters) := by
  induction parameters with
  | nil => rfl
  | cons p rest ih =>
    have declared : required (p.live f).declared? =
        liveResult f (Declared.map f) (required p.declared?) := by
      rw [Node.declared?_live]
      cases p.declared? <;> rfl
    exact liveResult_bind declared fun d => liveResult_bind (resolveType_live d.typeName function)
      fun t => liveResult_bind ih fun _ => rfl

theorem Fault.ofInteger_live (n : Int) (cause : Int → Cause) (subject : Option (Node Label)) :
    Fault.ofInteger n cause (subject.map (Node.live f)) =
      (Fault.ofInteger n cause subject).live f := by
  unfold Fault.ofInteger
  split <;> rfl

/-- Results without problems are the same. -/
theorem liveResult_id_of {x : Except Fault α} (calm : x.mapError (Fault.at none) = x) :
    x = liveResult f id x := by
  cases x with
  | ok a => rfl
  | error e =>
    refine congrArg Except.error ?_
    rw [← Except.error.inj calm]
    cases e <;> rfl

theorem Lists.apply_live (lists : Lists) (depth : Nat) (op : Operator) (a b : Value)
    (subject : Option (Node Label)) :
    lists.apply depth op a b (subject.map (Node.live f)) =
      liveResult f id (lists.apply depth op a b subject) := by
  rw [← Lists.apply_at, ← Lists.apply_at subject]
  cases lists.apply depth op a b none with
  | ok v => rfl
  | error e => cases e <;> rfl

end

/-! Trees that differ behind a `RETURN`. -/

section

variable {f : α → β}

mutual
/-- Two blocks: the statements behind a `RETURN`, of the block or of one inside it, are others. -/
inductive Node.BlockVaries : Node α → Node α → Prop where
  | behind (before : List (Node α)) {value : Node α} {dead dead' : List (Node α)} :
      BlockVaries (.list (before ++ .ret value :: dead)) (.list (before ++ .ret value :: dead'))
  | within (before : List (Node α)) {s s' : Node α} {after : List (Node α)}
      (inside : StatementVaries s s') :
      BlockVaries (.list (before ++ s :: after)) (.list (before ++ s' :: after))

/-- Two statements: a block of theirs varies so. -/
inductive Node.StatementVaries : Node α → Node α → Prop where
  | thenBlock {condition block block' other : Node α} (inside : BlockVaries block block') :
      StatementVaries (.conditional condition block other) (.conditional condition block' other)
  | elseBlock {condition other block block' : Node α} (inside : BlockVaries block block') :
      StatementVaries (.conditional condition other block) (.conditional condition other block')
  | case (before : List (Node α)) {condition value block block' : Node α}
      {after : List (Node α)} (inside : BlockVaries block block') :
      StatementVaries (.switch condition (.list (before ++ .case value block :: after)))
        (.switch condition (.list (before ++ .case value block' :: after)))
  | loop {condition block block' : Node α} (inside : BlockVaries block block') :
      StatementVaries (.loop condition block) (.loop condition block')
end

/-- Two programs: the body of a function varies so. -/
inductive Node.SourceVaries : Node α → Node α → Prop where
  | body (before : List (Node α)) {globals parameters block block' : Node α}
      {after : List (Node α)} {label : α} {name returnTypeName : Json}
      (inside : BlockVaries block block') :
      SourceVaries
        (.source globals (.list (before ++ .function label name parameters returnTypeName block ::
          after)))
        (.source globals (.list (before ++ .function label name parameters returnTypeName block' ::
          after)))

theorem Node.upToReturn_append {rest rest' : List (Node α)} (before : List (Node α))
    (same : upToReturn rest = upToReturn rest') :
    upToReturn (before ++ rest) = upToReturn (before ++ rest') := by
  induction before with
  | nil => exact same
  | cons first before ih =>
    cases first with
    | ret => rfl
    | _ => exact congrArg (List.cons _) ih

theorem Node.allLive_append (before rest : List (Node α)) :
    Node.allLive f (before ++ rest) = Node.allLive f before ++ Node.allLive f rest := by
  induction before with
  | nil => rfl
  | cons first before ih => exact congrArg (List.cons _) ih

/-- A list with the same one among the others is the same. -/
theorem Node.allLive_among {n n' : Node α} (before after : List (Node α))
    (same : n.live f = n'.live f) :
    Node.allLive f (before ++ n :: after) = Node.allLive f (before ++ n' :: after) := by
  rw [Node.allLive_append, Node.allLive_append, Node.allLive, Node.allLive, same]

mutual
theorem Node.BlockVaries.live {n n' : Node α} (h : n.BlockVaries n') :
    (n.live f).cut = (n'.live f).cut := by
  match h with
  | .behind before =>
    simp only [Node.live, Node.cut, Node.allLive_append, Node.allLive]
    exact congrArg Node.list (Node.upToReturn_append _ rfl)
  | .within before inside =>
    exact congrArg (Node.cut ∘ Node.list) (Node.allLive_among _ _ inside.live)

theorem Node.StatementVaries.live {n n' : Node α} (h : n.StatementVaries n') :
    n.live f = n'.live f := by
  match h with
  | .thenBlock inside | .elseBlock inside | .loop inside =>
    simp only [Node.live, inside.live]
  | .case before inside =>
    refine congrArg (Node.switch _ ∘ Node.list) (Node.allLive_among _ _ ?_)
    exact congrArg (Node.case _) inside.live
end

/-- Without the statements behind a `RETURN` there is no difference. -/
theorem Node.SourceVaries.live {n n' : Node α} (h : n.SourceVaries n') :
    n.live f = n'.live f := by
  obtain ⟨before, inside⟩ := h
  refine congrArg (Node.source _ ∘ Node.list) (Node.allLive_among _ _ ?_)
  simp only [Node.live, inside.live]

end

end PlcLang
