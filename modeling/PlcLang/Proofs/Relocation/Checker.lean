import PlcLang.Proofs.Relocation.Walk

namespace PlcLang

open Checking

variable {r : Relocation} {old : Annotations}

mutual
/-- An expression has the same type whatever the identities are. -/
theorem Node.checkExpression_relocates (Γ : Context) (e : Node Label) :
    Relocates r old id (e.checkExpression Γ) ((e.map r.label).checkExpression (Γ.relocate r)) := by
  match e with
  | .literal label value =>
    exact (Relocates.lift (Literal.check_relocate value (.literal label value))).bind fun t =>
      .annotateType
  | .group label inner =>
    refine .guarded (by rw [Node.isBinary_map]) rfl ?_
    exact (Node.checkExpression_relocates Γ inner).bind fun t => .annotateType
  | .binary label op left right =>
    refine (Node.checkExpression_relocates Γ left).bind fun l =>
      (Node.checkExpression_relocates Γ right).bind fun t => ?_
    exact (Relocates.lift (binaryType_relocate op left right (.binary label op left right) l
      t)).bind fun t => .annotateType
  | .access label name offset =>
    have bound : Relocates r old id (do
        let b ← Γ.bindingOf name (.access label name offset)
        annotate label fun a => { a with binding := b }
        annotateType label b.type) (do
        let b ← (Γ.relocate r).bindingOf name ((Node.access label name offset).map r.label)
        annotate (r.label label) fun a => { a with binding := b }
        annotateType (r.label label) b.type) :=
      (Relocates.lift (Context.bindingOf_relocate name (.access label name offset))).bind fun b =>
        (Relocates.annotate fun _ _ => rfl).bind fun _ => .annotateType
    simp only [Node.map, Node.checkExpression, Node.isAbsent_map]
    split
    · refine (Node.checkExpression_relocates Γ offset).bind fun t => ?_
      exact .guarded Iff.rfl rfl bound
    · exact bound
  | .call label name arguments =>
    cases arguments with
    | list arguments =>
      have length : (Node.mapAll r.label arguments).length = arguments.length := by
        rw [Node.mapAll_eq, List.length_map]
      simp only [Node.map, Node.checkExpression, length]
      refine (Relocates.lift (Context.signatureOf_relocate name arguments.length
        (.call label name (.list arguments)))).bind fun f => ?_
      exact (Node.checkArguments_relocates Γ arguments f.parameters).bind fun _ =>
        (Relocates.annotate fun _ _ => rfl).bind fun _ => .annotateType
    | _ => exact .throw rfl
  | .listLiteral label elements =>
    cases elements with
    | absent => exact .annotateType
    | list elements =>
      exact (Node.checkElements_relocates Γ elements).bind fun t => .annotateType
    | _ => exact .throw rfl
  | .absent | .list _ | .source .. | .global .. | .parameter .. | .function .. | .expressionStmt _
  | .declaration .. | .assignment .. | .conditional .. | .case .. | .switch .. | .loop ..
  | .ret _ => exact .throw rfl

theorem Node.checkArguments_relocates (Γ : Context) (arguments : List (Node Label))
    (parameters : List Ty) :
    Relocates r old id (Node.checkArguments Γ arguments parameters)
      (Node.checkArguments (Γ.relocate r) (Node.mapAll r.label arguments) parameters) := by
  match arguments, parameters with
  | [], [] | [], _ :: _ | _ :: _, [] => exact .pure rfl
  | argument :: rest, p :: parameters =>
    refine (Node.checkExpression_relocates Γ argument).bind fun t => ?_
    exact (Relocates.lift (requireAssignable_relocate p t argument)).bind fun _ =>
      Node.checkArguments_relocates Γ rest parameters

theorem Node.checkElements_relocates (Γ : Context) (elements : List (Node Label)) :
    Relocates r old id (Node.checkElements Γ elements)
      (Node.checkElements (Γ.relocate r) (Node.mapAll r.label elements)) := by
  match elements with
  | [] => exact .pure rfl
  | first :: rest =>
    exact (Node.checkExpression_relocates Γ first).bind fun t =>
      (Node.checkElements_relocates Γ rest).bind fun _ => .pure rfl
end

/-- A variable is declared, in a later check. -/
theorem Context.declare_relocates (Γ : Context) (check : Nat) (label : Label) (name : Json)
    (t : Ty) (isMutable : Bool) (subject : Node Label) :
    Relocates r old (Context.relocate r) (Γ.declare check label name t isMutable subject)
      ((Γ.relocate r).declare (check + r.checks) (r.label label) name t isMutable
        (subject.map r.label)) := by
  refine (Relocates.lift (key_relocate name)).bind fun key => ?_
  have added : (Γ.relocate r).addVariable key
      (Binding.relocate r ⟨⟨check, label⟩, name, t, isMutable⟩) = _ := addVariable_relocate _
  simp only [Binding.relocate, DeclId.relocate] at added
  simp only [id, added]
  cases Γ.addVariable key ⟨⟨check, label⟩, name, t, isMutable⟩ with
  | none => exact .throw rfl
  | some Γ' => exact (Relocates.annotate fun _ _ => rfl).bind fun _ => .pure rfl

theorem Context.declareFunction_relocates (Γ : Context) (check : Nat) (label : Label) (name : Json)
    (parameters : List Ty) (returns : Ty) (subject : Node Label) :
    Relocates r old (Context.relocate r)
      (Γ.declareFunction check label name parameters returns subject)
      ((Γ.relocate r).declareFunction (check + r.checks) (r.label label) name parameters returns
        (subject.map r.label)) := by
  refine (Relocates.lift (key_relocate name)).bind fun key => ?_
  have added : (Γ.relocate r).addFunction key
      (Signature.relocate r ⟨some ⟨check, label⟩, name, parameters, returns⟩) = _ :=
    addFunction_relocate _
  simp only [Signature.relocate, Option.map_some, DeclId.relocate] at added
  simp only [id, added]
  cases Γ.addFunction key ⟨some ⟨check, label⟩, name, parameters, returns⟩ with
  | none => exact .throw rfl
  | some Γ' => exact (Relocates.annotate fun _ _ => rfl).bind fun _ => .pure rfl

theorem Node.checkOptional_relocates (Γ : Context) (value : Node Label) :
    Relocates r old id (value.checkOptional Γ)
      ((value.map r.label).checkOptional (Γ.relocate r)) := by
  simp only [Node.checkOptional, Node.isAbsent_map]
  split
  · exact .pure rfl
  · exact (Node.checkExpression_relocates Γ value).bind fun t => .pure rfl

theorem Node.checkCondition_relocates (Γ : Context) (statement : String)
    (condition : Node Label) :
    Relocates r old id (condition.checkCondition Γ statement)
      ((condition.map r.label).checkCondition (Γ.relocate r) statement) := by
  refine (Node.checkExpression_relocates Γ condition).bind fun t => ?_
  simp only [id]
  split
  · exact .throw rfl
  · exact .pure rfl

theorem Node.checkCaseValue_relocates (Γ : Context) (t : Ty) (last : Bool) (branch : Node Label)
    (content : Content Label) :
    Relocates r old id (Node.checkCaseValue Γ t last branch content)
      (Node.checkCaseValue (Γ.relocate r) t last (branch.map r.label) (content.map r.label)) := by
  cases content with
  | nothing =>
    simp only [Content.map, Node.checkCaseValue]
    split
    · exact .throw rfl
    · exact .pure rfl
  | node value =>
    refine .guarded Iff.rfl rfl ?_
    exact (Node.checkExpression_relocates Γ value).bind fun u =>
      .lift (requireAssignable_relocate t u branch)
  | bare value => exact .guarded Iff.rfl rfl (.throw rfl)

mutual
/-- A statement is accepted or not whatever the identities are, with the same names in scope behind
it. -/
theorem Node.checkStatement_relocates (check : Nat) (returns : Ty) (Γ : Context) (s : Node Label) :
    Relocates r old (Context.relocate r) (s.checkStatement check returns Γ)
      ((s.map r.label).checkStatement (check + r.checks) returns (Γ.relocate r)) := by
  match s with
  | .expressionStmt e =>
    refine .guarded (by rw [Node.isCall_map]) rfl ?_
    exact (Node.checkExpression_relocates Γ e).bind fun _ => .pure rfl
  | .declaration label name typeName value =>
    refine (Node.checkOptional_relocates Γ value).bind fun found => ?_
    refine (Relocates.lift (resolveOptional_relocate typeName
      (.declaration label name typeName value))).bind fun declared => ?_
    exact (Relocates.lift (declaredType_relocate declared found (.untypedVariable name)
      (.declaration label name typeName value))).bind fun t =>
        Context.declare_relocates Γ check label name t true (.declaration label name typeName value)
  | .assignment receiver value =>
    refine .guarded (by rw [Node.isAccess_map]) rfl ?_
    refine (Node.checkExpression_relocates Γ receiver).bind fun target =>
      (Node.checkExpression_relocates Γ value).bind fun source => ?_
    exact (Relocates.lift (requireAssignable_relocate target source
      (.assignment receiver value))).bind fun _ => .pure rfl
  | .conditional condition thenStatements elseStatements =>
    refine (Node.checkCondition_relocates Γ "if" condition).bind fun _ => ?_
    refine .guarded (by rw [Node.isEmpty_map]) rfl ?_
    exact (Node.checkBlock_relocates check returns Γ.child thenStatements).bind fun _ =>
      (Node.checkBlock_relocates check returns Γ.child elseStatements).bind fun _ => .pure rfl
  | .switch condition cases =>
    refine (Node.checkExpression_relocates Γ condition).bind fun t => ?_
    refine .guarded (by rw [Node.isEmpty_map]) rfl ?_
    exact (Node.checkCases_relocates check returns Γ t cases).bind fun _ => .pure rfl
  | .loop condition statements =>
    refine (Node.checkCondition_relocates Γ "while" condition).bind fun _ => ?_
    exact (Node.checkBlock_relocates check returns Γ.child statements).bind fun _ => .pure rfl
  | .ret value =>
    refine (Node.checkExpression_relocates Γ value).bind fun t => ?_
    exact (Relocates.lift (requireAssignable_relocate returns t (.ret value))).bind fun _ =>
      .pure rfl
  | .absent | .list _ | .source .. | .global .. | .parameter .. | .function .. | .case ..
  | .literal .. | .group .. | .binary .. | .access .. | .call .. | .listLiteral .. =>
    exact .throw rfl

theorem Node.checkBlock_relocates (check : Nat) (returns : Ty) (Γ : Context) (b : Node Label) :
    Relocates r old id (b.checkBlock check returns Γ)
      ((b.map r.label).checkBlock (check + r.checks) returns (Γ.relocate r)) := by
  cases b with
  | list statements =>
    exact (Node.checkStatements_relocates check returns Γ statements).bind fun _ => .pure rfl
  | _ => exact .throw rfl

theorem Node.checkStatements_relocates (check : Nat) (returns : Ty) (Γ : Context)
    (statements : List (Node Label)) :
    Relocates r old (Context.relocate r) (Node.checkStatements check returns Γ statements)
      (Node.checkStatements (check + r.checks) returns (Γ.relocate r)
        (Node.mapAll r.label statements)) := by
  match statements with
  | [] => exact .pure rfl
  | statement :: rest =>
    exact (Node.checkStatement_relocates check returns Γ statement).bind fun Γ' =>
      Node.checkStatements_relocates check returns Γ' rest

theorem Node.checkCases_relocates (check : Nat) (returns : Ty) (Γ : Context) (t : Ty)
    (cases : Node Label) :
    Relocates r old id (Node.checkCases check returns Γ t cases)
      (Node.checkCases (check + r.checks) returns (Γ.relocate r) t (cases.map r.label)) := by
  cases cases with
  | list cases => exact Node.checkEachCase_relocates check returns Γ t cases
  | _ => exact .throw rfl

theorem Node.checkEachCase_relocates (check : Nat) (returns : Ty) (Γ : Context) (t : Ty)
    (cases : List (Node Label)) :
    Relocates r old id (Node.checkEachCase check returns Γ t cases)
      (Node.checkEachCase (check + r.checks) returns (Γ.relocate r) t
        (Node.mapAll r.label cases)) := by
  match cases with
  | [] => exact .pure rfl
  | branch :: rest =>
    have last : (Node.mapAll r.label rest).isEmpty = rest.isEmpty := by cases rest <;> rfl
    simp only [Node.mapAll, Node.checkEachCase, last]
    exact (Node.checkCase_relocates check returns Γ t rest.isEmpty branch).bind fun _ =>
      Node.checkEachCase_relocates check returns Γ t rest

theorem Node.checkCase_relocates (check : Nat) (returns : Ty) (Γ : Context) (t : Ty) (last : Bool)
    (branch : Node Label) :
    Relocates r old id (branch.checkCase check returns Γ t last)
      ((branch.map r.label).checkCase (check + r.checks) returns (Γ.relocate r) t last) := by
  have other (branch : Node Label) : Relocates r old (id : Unit → Unit) (do
      Node.checkCaseValue Γ t last branch (← required branch.content?)
      throw (.unfit .missingPart)) (do
      Node.checkCaseValue (Γ.relocate r) t last (branch.map r.label)
        (← required (branch.map r.label).content?)
      throw (.unfit .missingPart)) := by
    have content : required (branch.map r.label).content? =
        r.result (Content.map r.label) (required branch.content?) := by
      rw [Node.content?_map]
      exact required_relocate _ _
    exact (Relocates.lift content).bind fun content =>
      (Node.checkCaseValue_relocates Γ t last branch content).bind fun _ => .throw rfl
  cases branch with
  | case value statements =>
    simp only [Node.map, Node.checkCase, Content.ofNode_map]
    exact (Node.checkCaseValue_relocates Γ t last (.case value statements) (.ofNode value)).bind
      fun _ => Node.checkBlock_relocates check returns Γ.child statements
  | _ => exact other _
end

/-- What is left of the check of a global once the type of its value is found. -/
theorem Context.declareGlobal_relocates (check : Nat) (Γ : Context) (name : Json)
    (declared found : Option Ty) (g : Node Label) :
    Relocates r old (Context.relocate r) (do
      let type ← declaredType declared found (.untypedGlobal name) g
      match g with
      | .global label name isMutable _ _ => Γ.declare check label name type isMutable g
      | _ => throw (.unfit .missingPart)) (do
      let type ← declaredType declared found (.untypedGlobal name) (g.map r.label)
      match g.map r.label with
      | .global label name isMutable _ _ =>
        (Γ.relocate r).declare (check + r.checks) label name type isMutable (g.map r.label)
      | _ => throw (.unfit .missingPart)) := by
  refine (Relocates.lift (declaredType_relocate declared found _ g)).bind fun t => ?_
  cases g with
  | global label name isMutable typeName value =>
    exact Context.declare_relocates Γ check label name t isMutable
      (.global label name isMutable typeName value)
  | _ => exact .throw rfl

theorem Node.checkGlobal_relocates (check : Nat) (Γ : Context) (g : Node Label) :
    Relocates r old (Context.relocate r) (g.checkGlobal check Γ)
      ((g.map r.label).checkGlobal (check + r.checks) (Γ.relocate r)) := by
  have declared : required (g.map r.label).declared? =
      r.result (Declared.map r.label) (required g.declared?) := by
    rw [Node.declared?_map]
    exact required_relocate _ _
  have content : required (g.map r.label).content? =
      r.result (Content.map r.label) (required g.content?) := by
    rw [Node.content?_map]
    exact required_relocate _ _
  refine (Relocates.lift declared).bind fun d => ?_
  refine (Relocates.lift (resolveOptional_relocate d.typeName g)).bind fun declared => ?_
  refine (Relocates.lift content).bind fun content => ?_
  have declares (found : Option Ty) : Relocates r old (Context.relocate r) _ _ :=
    Context.declareGlobal_relocates check Γ d.name declared found g
  cases content with
  | node value =>
    exact (Node.checkExpression_relocates Γ value).bind fun t =>
      (Relocates.pure (g := id) rfl).bind declares
  | nothing | bare => exact (Relocates.pure (g := id) rfl).bind declares

theorem Node.checkParameters_relocates (check : Nat) (function : Node Label) (Γ : Context)
    (header : List (Declared Label × Ty)) :
    Relocates r old (Context.relocate r) (function.checkParameters check Γ header)
      ((function.map r.label).checkParameters (check + r.checks) (Γ.relocate r)
        (header.map (Prod.map (Declared.map r.label) id))) := by
  induction header generalizing Γ with
  | nil => exact .pure rfl
  | cons entry rest ih =>
    obtain ⟨p, t⟩ := entry
    exact (Context.declare_relocates Γ check p.label p.name t true function).bind ih

theorem Node.checkFunction_relocates (check : Nat) (Γ : Context) (f : Node Label) :
    Relocates r old (Context.relocate r) (f.checkFunction check Γ)
      ((f.map r.label).checkFunction (check + r.checks) (Γ.relocate r)) := by
  cases f with
  | function label name parameters returnTypeName statements =>
    refine (Relocates.lift (parameters.items_map r)).bind fun items => ?_
    refine (Relocates.lift (headerTypes_relocate (.function label name parameters returnTypeName
      statements) items)).bind fun header => ?_
    refine (Relocates.lift (resolveOptional_relocate returnTypeName (.function label name parameters
      returnTypeName statements))).bind fun returns => ?_
    have types : (header.map (Prod.map (Declared.map r.label) id)).map (·.2) =
        header.map (·.2) := by
      rw [List.map_map]
      rfl
    simp only [id, types]
    refine (Context.declareFunction_relocates Γ check label name _ _ (.function label name
      parameters returnTypeName statements)).bind fun Γ' => ?_
    refine (Node.checkParameters_relocates check (.function label name parameters returnTypeName
      statements) Γ'.child header).bind fun inside => ?_
    exact (Node.checkBlock_relocates check _ inside statements).bind fun _ => .pure rfl
  | _ => exact .throw rfl

theorem Node.checkGlobals_relocates (check : Nat) (Γ : Context) (globals : List (Node Label)) :
    Relocates r old (Context.relocate r) (Node.checkGlobals check Γ globals)
      (Node.checkGlobals (check + r.checks) (Γ.relocate r) (Node.mapAll r.label globals)) := by
  induction globals generalizing Γ with
  | nil => exact .pure rfl
  | cons g rest ih => exact (Node.checkGlobal_relocates check Γ g).bind ih

theorem Node.checkFunctions_relocates (check : Nat) (Γ : Context) (functions : List (Node Label)) :
    Relocates r old (Prod.map (Context.relocate r) id) (Node.checkFunctions check Γ functions)
      (Node.checkFunctions (check + r.checks) (Γ.relocate r) (Node.mapAll r.label functions)) := by
  induction functions generalizing Γ with
  | nil => exact .pure rfl
  | cons f rest ih =>
    refine (Relocates.lift (checkMain_relocate f)).bind fun isMain => ?_
    exact (Node.checkFunction_relocates check Γ f).bind fun Γ' => (ih Γ').bind fun _ => .pure rfl

theorem Node.checkProgram_relocates (check : Nat) (outer : List StaticBlock) (tree : Node Label) :
    Relocates r old (Context.relocate r) (tree.checkProgram check outer)
      ((tree.map r.label).checkProgram (check + r.checks)
        (outer.map (StaticBlock.relocate r))) := by
  cases tree with
  | source globals functions =>
    refine (Relocates.lift (globals.items_map r)).bind fun globals' => ?_
    refine (Node.checkGlobals_relocates check ⟨.standard, outer⟩ globals').bind fun Γ => ?_
    refine (Relocates.lift (functions.items_map r)).bind fun functions' => ?_
    refine (Node.checkFunctions_relocates check Γ functions').bind fun (Γ', found) => ?_
    exact .guarded Iff.rfl rfl (.pure rfl)
  | _ => exact .throw rfl

end PlcLang
