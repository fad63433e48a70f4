import PlcLang.Proofs.Checking.Program

namespace PlcLang

open Checking Annotations

/-- A call at one of these labels was checked against the function that `find` gives for it, and
that is what was found of the call. -/
def Node.Traced (find : Key → Nat → Option Signature) (found : Annotations)
    (labels : List Label) : Node Label → Prop
  | .call label name arguments =>
    label ∈ labels ∧ ∃ items key b, arguments = .list items ∧ name.key? = some key ∧
      find key items.length = some b ∧ (found.of label).signature = some b
  | _ => True

/-- A way to find functions knows them by how many parameters they have. -/
def Regularly (find : Key → Nat → Option Signature) : Prop :=
  ∀ key arity f, find key arity = some f → f.parameters.length = arity

theorem Context.Regular.regularly {Γ : Context} (h : Γ.Regular) : Regularly Γ.findFunction :=
  fun _ _ _ hf => h.arity hf

theorem findFunction_child {Γ : Context} : Γ.child.findFunction = Γ.findFunction := rfl

theorem findFunction_addVariable {Γ Γ' : Context} {key : Key} {b : Binding}
    (h : Γ.addVariable key b = some Γ') : Γ'.findFunction = Γ.findFunction := by
  obtain ⟨_, rfl⟩ := addVariable_eq h
  rfl

section

variable {find : Key → Nat → Option Signature} {found : Annotations} {ls : List Label}
  {Γ : Context} {check : Nat} {returns : Ty}

mutual
theorem traced_of_check (regular : Regularly find) (known : Γ.findFunction = find)
    (e : Node Label) {t : Ty} {σ σ' : Annotations} (h : (e.checkExpression Γ).Gives σ t σ')
    (last : Lasts found σ' e.labels) (sub : e.labels ⊆ ls) :
    e.Every (Node.Traced find found ls) := by
  match e with
  | .literal label value => exact trivial
  | .group label inner =>
    obtain ⟨_, _, hi, rfl⟩ := gives_group.1 h
    exact ⟨trivial, traced_of_check regular known inner hi last.tail
      (List.subset_of_cons_subset sub)⟩
  | .binary label op left right =>
    obtain ⟨_, _, _, _, hl, hr, _, rfl⟩ := gives_binary.1 h
    have sub := List.append_subset.1 (List.subset_of_cons_subset sub)
    refine ⟨trivial, ?_, ?_⟩
    · exact traced_of_check regular known left hl (last.tail.left (within_of_check hr)) sub.1
    · exact traced_of_check regular known right hr last.tail.right sub.2
  | .access label name offset =>
    cases given : offset.isAbsent with
    | true =>
      obtain rfl := isAbsent_iff.1 given
      exact ⟨trivial, trivial⟩
    | false =>
      obtain ⟨_, _, _, ho, _, _, _, rfl⟩ := (gives_element given).1 h
      exact ⟨trivial, traced_of_check regular known offset ho last.tail
        (List.subset_of_cons_subset sub)⟩
  | .call label name arguments =>
    cases arguments with
    | list arguments =>
      obtain ⟨key, f, _, isName, inScope, ha, _, rfl⟩ := gives_call.1 h
      rw [known] at inScope
      have bound : (found.of label).signature = some f := by rw [last.head]
      refine ⟨⟨sub List.mem_cons_self, arguments, key, f, rfl, isName, inScope, bound⟩, trivial,
        ?_⟩
      exact tracedArguments_of_check regular known arguments f.parameters ha
        (regular _ _ _ inScope) last.tail (List.subset_of_cons_subset sub)
    | _ => exact (gives_throw h).elim
  | .listLiteral label elements =>
    cases elements with
    | absent => exact ⟨trivial, trivial⟩
    | list elements =>
      obtain ⟨_, he, rfl⟩ := gives_list.1 h
      exact ⟨trivial, trivial, tracedElements_of_check regular known elements he last.tail
        (List.subset_of_cons_subset sub)⟩
    | _ => exact (gives_throw h).elim
  | .absent | .list _ | .source .. | .global .. | .parameter .. | .function .. | .expressionStmt _
  | .declaration .. | .assignment .. | .conditional .. | .case .. | .switch .. | .loop ..
  | .ret _ => exact (gives_throw h).elim

theorem tracedArguments_of_check (regular : Regularly find) (known : Γ.findFunction = find)
    (arguments : List (Node Label)) (parameters : List Ty) {u : Unit} {σ σ' : Annotations}
    (h : (Node.checkArguments Γ arguments parameters).Gives σ u σ')
    (fits : parameters.length = arguments.length)
    (last : Lasts found σ' (Node.allLabels arguments)) (sub : Node.allLabels arguments ⊆ ls) :
    Node.EveryOne (Node.Traced find found ls) arguments := by
  match arguments, parameters with
  | [], _ => exact trivial
  | _ :: _, [] => simp at fits
  | argument :: rest, p :: parameters =>
    obtain ⟨_, _, ht, _, ho⟩ := gives_checkArguments_cons.1 h
    have w := within_of_checkArguments ho
    have sub := List.append_subset.1 sub
    refine ⟨traced_of_check regular known argument ht (last.left w) sub.1, ?_⟩
    exact tracedArguments_of_check regular known rest parameters ho (by simpa using fits) last.right
      sub.2

theorem tracedElements_of_check (regular : Regularly find) (known : Γ.findFunction = find)
    (elements : List (Node Label)) {t : Ty} {σ σ' : Annotations}
    (h : (Node.checkElements Γ elements).Gives σ t σ')
    (last : Lasts found σ' (Node.allLabels elements)) (sub : Node.allLabels elements ⊆ ls) :
    Node.EveryOne (Node.Traced find found ls) elements := by
  match elements with
  | [] => exact trivial
  | first :: rest =>
    obtain ⟨_, _, hf, ho⟩ := gives_checkElements_cons.1 h
    have w := within_of_checkElements ho
    have sub := List.append_subset.1 sub
    refine ⟨traced_of_check regular known first hf (last.left w) sub.1, ?_⟩
    exact tracedElements_of_check regular known rest ho last.right sub.2
end

/-- A first value that may be left out. -/
theorem traced_of_checkOptional (regular : Regularly find) (known : Γ.findFunction = find)
    {value : Node Label} {u : Option Ty} {σ σ' : Annotations}
    (h : (value.checkOptional Γ).Gives σ u σ') (last : Lasts found σ' value.labels)
    (sub : value.labels ⊆ ls) : value.Every (Node.Traced find found ls) := by
  rcases gives_checkOptional.1 h with ⟨rfl, _⟩ | ⟨_, _, hv, _⟩
  · exact trivial
  · exact traced_of_check regular known value hv last sub

mutual
theorem tracedStatement_of_check (regular : Regularly find) (s : Node Label) {Γ Γ' : Context}
    (known : Γ.findFunction = find) {σ σ' : Annotations}
    (h : (s.checkStatement check returns Γ).Gives σ Γ' σ') (last : Lasts found σ' s.labels)
    (sub : s.labels ⊆ ls) :
    s.Every (Node.Traced find found ls) ∧ Γ'.findFunction = find := by
  have inside := findFunction_child.trans known
  match s with
  | .expressionStmt e =>
    obtain ⟨_, _, he, rfl⟩ := gives_expressionStmt.1 h
    exact ⟨⟨trivial, traced_of_check regular known e he last sub⟩, known⟩
  | .declaration label name typeName value =>
    obtain ⟨_, _, _, _, hv, _, _, declares⟩ := gives_declaration.1 h
    obtain ⟨_, _, added, rfl⟩ := gives_declare.1 declares
    refine ⟨⟨trivial, ?_⟩, (findFunction_addVariable added).trans known⟩
    exact traced_of_checkOptional regular known hv last.tail (List.subset_of_cons_subset sub)
  | .assignment receiver value =>
    obtain ⟨_, _, _, _, ht, hu, _, rfl⟩ := gives_assignment.1 h
    have sub := List.append_subset.1 sub
    refine ⟨⟨trivial, ?_, ?_⟩, known⟩
    · exact traced_of_check regular known receiver ht (last.left (within_of_check hu)) sub.1
    · exact traced_of_check regular known value hu last.right sub.2
  | .conditional condition thenStatements elseStatements =>
    obtain ⟨_, _, hc, _, ht, he, rfl⟩ := gives_conditional.1 h
    have wt := within_of_checkBlock ht
    have we := within_of_checkBlock he
    obtain ⟨subCondition, sub⟩ := List.append_subset.1 sub
    have sub := List.append_subset.1 sub
    refine ⟨⟨trivial, ?_, ?_, ?_⟩, known⟩
    · exact traced_of_check regular known condition hc (last.left (wt.append we)) subCondition
    · exact tracedBlock_of_check regular thenStatements inside ht (last.right.left we) sub.1
    · exact tracedBlock_of_check regular elseStatements inside he last.right.right sub.2
  | .switch condition cases =>
    obtain ⟨_, _, hc, _, hb, rfl⟩ := gives_switch.1 h
    cases cases with
    | list cases =>
      have wb := within_of_checkCases hb
      have sub := List.append_subset.1 sub
      refine ⟨⟨trivial, ?_, trivial, ?_⟩, known⟩
      · exact traced_of_check regular known condition hc (last.left wb) sub.1
      · exact tracedCases_of_check regular cases known hb last.right sub.2
    | _ => exact (gives_throw hb).elim
  | .loop condition statements =>
    obtain ⟨_, hc, hb, rfl⟩ := gives_loop.1 h
    have sub := List.append_subset.1 sub
    refine ⟨⟨trivial, ?_, ?_⟩, known⟩
    · exact traced_of_check regular known condition hc (last.left (within_of_checkBlock hb)) sub.1
    · exact tracedBlock_of_check regular statements inside hb last.right sub.2
  | .ret value =>
    obtain ⟨_, ht, _, rfl⟩ := gives_ret.1 h
    exact ⟨⟨trivial, traced_of_check regular known value ht last sub⟩, known⟩
  | .absent | .list _ | .source .. | .global .. | .parameter .. | .function .. | .case ..
  | .literal .. | .group .. | .binary .. | .access .. | .call .. | .listLiteral .. =>
    exact (gives_throw h).elim

theorem tracedBlock_of_check (regular : Regularly find) (b : Node Label) {Γ : Context}
    (known : Γ.findFunction = find) {u : Unit} {σ σ' : Annotations}
    (h : (b.checkBlock check returns Γ).Gives σ u σ') (last : Lasts found σ' b.labels)
    (sub : b.labels ⊆ ls) : b.Every (Node.Traced find found ls) := by
  cases b with
  | list statements =>
    obtain ⟨_, hs⟩ := gives_checkBlock.1 h
    exact ⟨trivial, tracedStatements_of_check regular statements known hs last sub⟩
  | _ => exact (gives_throw h).elim

theorem tracedStatements_of_check (regular : Regularly find) (statements : List (Node Label))
    {Γ Γ' : Context} (known : Γ.findFunction = find) {σ σ' : Annotations}
    (h : (Node.checkStatements check returns Γ statements).Gives σ Γ' σ')
    (last : Lasts found σ' (Node.allLabels statements)) (sub : Node.allLabels statements ⊆ ls) :
    Node.EveryOne (Node.Traced find found ls) statements := by
  match statements with
  | [] => exact trivial
  | statement :: rest =>
    obtain ⟨_, _, hs, ho⟩ := gives_bind.1 h
    have w := within_of_checkStatements ho
    have sub := List.append_subset.1 sub
    obtain ⟨first, known⟩ :=
      tracedStatement_of_check regular statement known hs (last.left w) sub.1
    exact ⟨first, tracedStatements_of_check regular rest known ho last.right sub.2⟩

theorem tracedCases_of_check (regular : Regularly find) (cases : List (Node Label)) {Γ : Context}
    (known : Γ.findFunction = find) {t : Ty} {u : Unit} {σ σ' : Annotations}
    (h : (Node.checkEachCase check returns Γ t cases).Gives σ u σ')
    (last : Lasts found σ' (Node.allLabels cases)) (sub : Node.allLabels cases ⊆ ls) :
    Node.EveryOne (Node.Traced find found ls) cases := by
  match cases with
  | [] => exact trivial
  | branch :: rest =>
    obtain ⟨_, _, hb, ho⟩ := gives_bind.1 h
    have wo := within_of_checkCases ho
    have sub := List.append_subset.1 sub
    refine ⟨?_, tracedCases_of_check regular rest known ho last.right sub.2⟩
    cases branch with
    | case value statements =>
      obtain ⟨_, hv, hb⟩ := gives_checkCase.1 hb
      have wb := within_of_checkBlock hb
      have sub := List.append_subset.1 sub.1
      have body := tracedBlock_of_check regular statements (findFunction_child.trans known) hb
        (last.left wo).right sub.2
      refine ⟨trivial, ?_, body⟩
      rcases hv with ⟨rfl, _, rfl⟩ | ⟨_, _, _, hv, _⟩
      · exact trivial
      · exact traced_of_check regular known value hv ((last.left wo).left wb) sub.1
    | _ => nomatch case_of_gives hb
end

/-- Parameters are no functions. -/
theorem findFunction_checkParameters {function : Node Label} {header : List (Declared Label × Ty)}
    {Γ' : Context} {σ σ' : Annotations}
    (h : (function.checkParameters check Γ header).Gives σ Γ' σ') :
    Γ'.findFunction = Γ.findFunction := by
  induction header generalizing Γ σ with
  | nil => rw [(gives_pure.1 h).1]
  | cons p rest ih =>
    obtain ⟨p, t⟩ := p
    obtain ⟨_, _, hp, ho⟩ := gives_bind.1 h
    obtain ⟨_, _, added, rfl⟩ := gives_declare.1 hp
    exact (ih ho).trans (findFunction_addVariable added)

/-- The values of globals are checked before any function of the program is known. -/
theorem tracedGlobals_of_check (regular : Regularly find) (globals : List (Node Label))
    {Γ Γ' : Context} (known : Γ.findFunction = find) {σ σ' : Annotations}
    (h : (Node.checkGlobals check Γ globals).Gives σ Γ' σ')
    (last : Lasts found σ' (Node.allLabels globals)) (sub : Node.allLabels globals ⊆ ls) :
    Node.EveryOne (Node.Traced find found ls) globals ∧
      Γ'.inner.functions = Γ.inner.functions ∧ Γ'.outer = Γ.outer := by
  induction globals generalizing Γ σ with
  | nil =>
    obtain ⟨rfl, rfl⟩ := gives_pure.1 h
    exact ⟨trivial, rfl, rfl⟩
  | cons g rest ih =>
    obtain ⟨Γ₁, _, hg, ho⟩ := gives_bind.1 h
    have w := within_of_checkGlobals ho
    have sub := List.append_subset.1 sub
    have here := last.left w
    obtain ⟨label, name, isMutable, typeName, value, rfl⟩ := global_of_gives hg
    obtain ⟨_, _, _, _, _, hv, _, hd⟩ := gives_checkGlobal.1 hg
    obtain ⟨_, _, added, rfl⟩ := gives_declare.1 hd
    have first := traced_of_checkOptional regular known hv here.tail
      (List.subset_of_cons_subset sub.1)
    obtain ⟨others, same⟩ := ih ((findFunction_addVariable added).trans known) ho last.right sub.2
    obtain ⟨_, rfl⟩ := addVariable_eq added
    exact ⟨⟨⟨trivial, first⟩, others⟩, same⟩

end

/-- Functions become known one after another, each to its own code and to those after it. -/
inductive Defines (check : Nat) (found : Annotations) (labels : List Label) :
    Context → List (Node Label) → Context → Prop where
  | nil {Γ : Context} : Defines check found labels Γ [] Γ
  | cons {Γ Γ' Γ'' : Context} {label : Label} {name returnTypeName : Json} {key : Key}
      {parameters rest : List (Node Label)} {statements : Node Label}
      {header : List (Declared Label × Ty)} {returns : Option Ty}
      (headed : (Node.function label name (.list parameters) returnTypeName
        statements).headerTypes parameters = .ok header)
      (returning : resolveOptional returnTypeName (.function label name (.list parameters)
        returnTypeName statements) = .ok returns)
      (isName : name.key? = some key)
      (added : Γ.addFunction key
        ⟨some ⟨check, label⟩, name, header.map (·.2), returns.getD .nil⟩ = some Γ')
      (traced : statements.Every (Node.Traced Γ'.findFunction found labels))
      (others : Defines check found labels Γ' rest Γ'') :
      Defines check found labels Γ
        (.function label name (.list parameters) returnTypeName statements :: rest) Γ''

section

variable {check : Nat} {found : Annotations} {ls : List Label}

theorem defines_of_check {functions : List (Node Label)} {Γ Γ' : Context} {isMain : Bool}
    {σ σ' : Annotations} (regular : Γ.Regular)
    (h : (Node.checkFunctions check Γ functions).Gives σ (Γ', isMain) σ')
    (last : Lasts found σ' (Node.allLabels functions)) (sub : Node.allLabels functions ⊆ ls) :
    Defines check found ls Γ functions Γ' := by
  induction functions generalizing Γ σ isMain with
  | nil =>
    obtain ⟨same, rfl⟩ := gives_pure.1 h
    cases same
    exact .nil
  | cons f rest ih =>
    obtain ⟨_, _, Γ₁, _, _, hf, ho, rfl⟩ := gives_checkFunctions_cons.1 h
    have w := within_of_checkFunctions ho
    have sub := List.append_subset.1 sub
    have last_here := last.left w
    obtain ⟨label, name, parameters, returnTypeName, statements, rfl⟩ := function_of_gives hf
    obtain ⟨header, returns, inside, _, _, headed, returning, declares, hp, hb⟩ :=
      (gives_checkFunction rfl).1 hf
    obtain ⟨key, isName, added, rfl⟩ := gives_declareFunction.1 declares
    have regular := regular.addFunction added
    have known := (findFunction_checkParameters hp).trans findFunction_child
    have below : Node.allLabels parameters ++ statements.labels ⊆ ls :=
      List.subset_of_cons_subset sub.1
    have last_here : Lasts found _ ((label :: Node.allLabels parameters) ++ statements.labels) :=
      last_here
    have traced := tracedBlock_of_check regular.regularly statements known hb last_here.right
      (List.append_subset.1 below).2
    exact .cons headed returning isName added traced (ih regular ho last.right sub.2)

end

end PlcLang
