import PlcLang.Proofs.Checking.Faults

/-! What a walk of the checker comes to, apart from what it notes of nodes. -/

namespace PlcLang

/-- A fault of some part of a program: anything but that the program has no `main`. -/
def Fault.OfPart : Fault → Prop
  | .problem p => p.cause.errorClass ≠ .missingEntryPoint
  | _ => True

/-- Where a rule fails, it is for a part of the program. -/
def FailsInPart {α : Type} (x : Except Fault α) : Prop :=
  ∀ f, x = .error f → f.OfPart

section

variable {α β : Type}

theorem failsInPart_ok {a : α} : FailsInPart (.ok a) := by
  intro f h
  cases h

theorem failsInPart_error {f : Fault} (h : f.OfPart) : FailsInPart (.error f : Except Fault α) := by
  intro f' same
  cases same
  exact h

theorem FailsInPart.bind {x : Except Fault α} {k : α → Except Fault β} (first : FailsInPart x)
    (rest : ∀ a, FailsInPart (k a)) : FailsInPart (x >>= k) := by
  intro f h
  rcases Except.bind_eq_error.1 h with h | ⟨a, -, h⟩
  · exact first f h
  · exact rest a f h

theorem FailsInPart.map {x : Except Fault α} (g : α → β) (h : FailsInPart x) :
    FailsInPart (x.map g) :=
  fun f failed => h f (Except.map_eq_error.1 failed)

end

section

variable {subject : Node Label}

theorem failsInPart_required {α : Type} (part : Option α) : FailsInPart (required part) := by
  cases part with
  | none => exact failsInPart_error trivial
  | some a => exact failsInPart_ok

theorem failsInPart_items (n : Node Label) : FailsInPart n.items := by
  cases n <;> first | exact failsInPart_ok | exact failsInPart_error trivial

theorem failsInPart_key (name : Json) : FailsInPart name.key := by
  unfold Json.key
  split
  · exact failsInPart_ok
  · exact failsInPart_error trivial

theorem failsInPart_ofInteger {n : Int} {cause : Int → Cause}
    (h : (cause n).errorClass ≠ .missingEntryPoint) {α : Type} :
    FailsInPart (.error (Fault.ofInteger n cause subject) : Except Fault α) := by
  unfold Fault.ofInteger
  split
  · exact failsInPart_error h
  · exact failsInPart_error trivial

theorem failsInPart_requireAssignable (target source : Ty) :
    FailsInPart (requireAssignable target source subject) := by
  unfold requireAssignable
  split
  · exact failsInPart_ok
  · exact failsInPart_error (by rintro ⟨⟩)

theorem failsInPart_resolveType (name : Json) : FailsInPart (resolveType name subject) := by
  refine (failsInPart_key name).bind fun _ => ?_
  split
  · exact failsInPart_ok
  · exact failsInPart_error (by rintro ⟨⟩)

theorem failsInPart_resolveOptional (typeName : Json) :
    FailsInPart (resolveOptional typeName subject) := by
  unfold resolveOptional
  split
  · exact failsInPart_ok
  · exact (failsInPart_resolveType typeName).map some

theorem failsInPart_literal (value : Literal) : FailsInPart (value.check subject) := by
  cases value with
  | nil | boolean | character | string => exact failsInPart_ok
  | integer n =>
    rw [Literal.check]
    split
    · exact failsInPart_ok
    · exact failsInPart_ofInteger (by rintro ⟨⟩)
  | decimal d =>
    rw [Literal.check]
    split
    · exact failsInPart_ok
    · exact failsInPart_error (by rintro ⟨⟩)
  | foreign value => exact failsInPart_error (by rintro ⟨⟩)

theorem failsInPart_numericType (op : Operator) (left right : Node Label) (l r : Ty) :
    FailsInPart (numericType op left right l r) := by
  unfold numericType
  split
  · exact (failsInPart_requireAssignable l r).bind fun _ => failsInPart_ok
  · exact failsInPart_error (by rintro ⟨⟩)

theorem failsInPart_binaryType (op : Operator) (left right : Node Label) (l r : Ty) :
    FailsInPart (binaryType op left right subject l r) := by
  cases op with
  | and | or | power =>
    exact (failsInPart_requireAssignable _ l).bind fun _ =>
      (failsInPart_requireAssignable _ r).bind fun _ => failsInPart_ok
  | less | greater | equal | unequal =>
    refine (failsInPart_requireAssignable _ l).bind fun _ =>
      (failsInPart_requireAssignable _ r).bind fun _ => ?_
    split
    · exact failsInPart_ok
    · exact failsInPart_error (by rintro ⟨⟩)
  | plus =>
    rw [binaryType]
    split
    · exact failsInPart_ok
    · exact failsInPart_numericType .plus left right l r
  | minus | times | divide => exact failsInPart_numericType _ left right l r
  | other text => exact failsInPart_error (by rintro ⟨⟩)

theorem failsInPart_bindingOf (Γ : Context) (name : Json) :
    FailsInPart (Γ.bindingOf name subject) := by
  refine (failsInPart_key name).bind fun key => ?_
  split
  · exact failsInPart_ok
  · exact failsInPart_error (by rintro ⟨⟩)

theorem failsInPart_signatureOf (Γ : Context) (name : Json) (arity : Nat) :
    FailsInPart (Γ.signatureOf name arity subject) := by
  refine (failsInPart_key name).bind fun key => ?_
  split
  · exact failsInPart_ok
  · exact failsInPart_error (by rintro ⟨⟩)

theorem failsInPart_declaredType (declared found : Option Ty) {untyped : Cause}
    (h : untyped.errorClass ≠ .missingEntryPoint) :
    FailsInPart (declaredType declared found untyped subject) := by
  cases declared with
  | none =>
    cases found with
    | none => exact failsInPart_error h
    | some t => exact failsInPart_ok
  | some d =>
    cases found with
    | none => exact failsInPart_ok
    | some t => exact (failsInPart_requireAssignable d t).bind fun _ => failsInPart_ok

theorem failsInPart_headerTypes (parameters : List (Node Label)) :
    FailsInPart (subject.headerTypes parameters) := by
  induction parameters with
  | nil => exact failsInPart_ok
  | cons p rest ih =>
    exact (failsInPart_required _).bind fun d => (failsInPart_resolveType d.typeName).bind fun _ =>
      ih.bind fun _ => failsInPart_ok

theorem failsInPart_checkMain (f : Node Label) : FailsInPart f.checkMain := by
  refine (failsInPart_required _).bind fun name => ?_
  split
  · exact failsInPart_ok
  · split
    · split
      · exact failsInPart_ok
      · split
        · exact failsInPart_error (by rintro ⟨⟩)
        · exact failsInPart_ok
    · exact failsInPart_error trivial

end

namespace Checking

/-- A walk comes to the same whatever was found before it, and if it fails, it is for a part of the
program. -/
structure Steady {α : Type} (x : Checking α) : Prop where
  alike : ∀ σ τ, (x.run.run σ).1 = (x.run.run τ).1
  blames : x.Blames Fault.OfPart

/-- What a walk comes to where nothing was found before it. -/
def outcome {α : Type} (x : Checking α) : Except Fault α :=
  (x.run.run #[]).1

variable {α β : Type}

theorem Steady.run_eq {x : Checking α} (h : x.Steady) (σ : Annotations) :
    (x.run.run σ).1 = x.outcome :=
  h.alike σ #[]

theorem Steady.failsInPart {x : Checking α} (h : x.Steady) : FailsInPart x.outcome :=
  fun f failed => h.blames #[] f _ (Prod.ext failed rfl)

theorem steady_pure {a : α} : (pure a : Checking α).Steady :=
  ⟨fun _ _ => rfl, blames_pure⟩

theorem steady_throw {f : Fault} (h : f.OfPart) : (throw f : Checking α).Steady :=
  ⟨fun _ _ => rfl, blames_throw h⟩

theorem steady_lift {x : Except Fault α} (h : FailsInPart x) : (liftM x : Checking α).Steady :=
  ⟨fun _ _ => rfl, blames_lift h⟩

theorem steady_annotate {label : Label} {change : Annotation → Annotation} :
    (annotate label change).Steady :=
  ⟨fun _ _ => rfl, blames_annotate⟩

/-- A walk fails where its first part does, else it comes to what the other one comes to. -/
theorem Steady.run_bind {x : Checking α} {k : α → Checking β} (rest : ∀ a, (k a).Steady)
    (σ : Annotations) :
    ((x >>= k).run.run σ).1 = (x.run.run σ).1 >>= fun a => (k a).outcome := by
  simp only [ExceptT.run_bind, StateT.run_bind]
  obtain ⟨r, τ⟩ := x.run.run σ
  cases r with
  | error f => rfl
  | ok a => exact (rest a).run_eq τ

theorem Steady.bind {x : Checking α} {k : α → Checking β} (first : x.Steady)
    (rest : ∀ a, (k a).Steady) : (x >>= k).Steady := by
  refine ⟨fun σ τ => ?_, first.blames.bind fun a => (rest a).blames⟩
  rw [Steady.run_bind rest, Steady.run_bind rest, first.alike σ τ]

theorem Steady.outcome_bind {x : Checking α} {k : α → Checking β} (rest : ∀ a, (k a).Steady) :
    (x >>= k).outcome = x.outcome >>= fun a => (k a).outcome :=
  Steady.run_bind rest #[]

theorem steady_annotateType {label : Label} {t : Ty} : (annotateType label t).Steady :=
  steady_annotate.bind fun _ => steady_pure

/-- A walk that goes on after a test has passed it. -/
theorem Steady.unless {p : Prop} [Decidable p] {f : Fault} {x : Checking α} (h : f.OfPart)
    (rest : x.Steady) : Steady (if p then throw f >>= fun (_ : PUnit) => x else x) := by
  split
  · exact (steady_throw h).bind fun _ => rest
  · exact rest

end Checking

open Checking

mutual
theorem Node.checkExpression_steady (Γ : Context) (e : Node Label) :
    (e.checkExpression Γ).Steady := by
  match e with
  | .literal label value =>
    exact (steady_lift (failsInPart_literal value)).bind fun _ => steady_annotateType
  | .group label inner =>
    refine .unless (by rintro ⟨⟩) ?_
    exact (Node.checkExpression_steady Γ inner).bind fun _ => steady_annotateType
  | .binary label op left right =>
    refine (Node.checkExpression_steady Γ left).bind fun l =>
      (Node.checkExpression_steady Γ right).bind fun r => ?_
    exact (steady_lift (failsInPart_binaryType op left right l r)).bind fun _ => steady_annotateType
  | .access label name offset =>
    have bound : Steady (do
        let b ← Γ.bindingOf name (.access label name offset)
        annotate label fun a => { a with binding := b }
        annotateType label b.type) :=
      (steady_lift (failsInPart_bindingOf Γ name)).bind fun _ =>
        steady_annotate.bind fun _ => steady_annotateType
    simp only [Node.checkExpression]
    split
    · exact (Node.checkExpression_steady Γ offset).bind fun _ => .unless (by rintro ⟨⟩) bound
    · exact bound
  | .call label name arguments =>
    cases arguments with
    | list arguments =>
      simp only [Node.checkExpression]
      refine (steady_lift (failsInPart_signatureOf Γ name arguments.length)).bind fun f => ?_
      exact (Node.checkArguments_steady Γ arguments f.parameters).bind fun _ =>
        steady_annotate.bind fun _ => steady_annotateType
    | _ => exact steady_throw trivial
  | .listLiteral label elements =>
    cases elements with
    | absent => exact steady_annotateType
    | list elements =>
      exact (Node.checkElements_steady Γ elements).bind fun _ => steady_annotateType
    | _ => exact steady_throw trivial
  | .absent | .list _ | .source .. | .global .. | .parameter .. | .function .. | .expressionStmt _
  | .declaration .. | .assignment .. | .conditional .. | .case .. | .switch .. | .loop ..
  | .ret _ => exact steady_throw trivial

theorem Node.checkArguments_steady (Γ : Context) (arguments : List (Node Label))
    (parameters : List Ty) : (Node.checkArguments Γ arguments parameters).Steady := by
  match arguments, parameters with
  | [], [] | [], _ :: _ | _ :: _, [] => exact steady_pure
  | argument :: rest, p :: parameters =>
    exact (Node.checkExpression_steady Γ argument).bind fun t =>
      (steady_lift (failsInPart_requireAssignable p t)).bind fun _ =>
        Node.checkArguments_steady Γ rest parameters

theorem Node.checkElements_steady (Γ : Context) (elements : List (Node Label)) :
    (Node.checkElements Γ elements).Steady := by
  match elements with
  | [] => exact steady_pure
  | first :: rest =>
    exact (Node.checkExpression_steady Γ first).bind fun _ =>
      (Node.checkElements_steady Γ rest).bind fun _ => steady_pure
end

section

variable {Γ : Context} {check : Nat} {subject : Node Label}

theorem Context.declare_steady {label : Label} {name : Json} {t : Ty} {isMutable : Bool} :
    (Γ.declare check label name t isMutable subject).Steady := by
  refine (steady_lift (failsInPart_key name)).bind fun key => ?_
  dsimp only
  split
  · exact steady_annotate.bind fun _ => steady_pure
  · exact steady_throw (by rintro ⟨⟩)

theorem Context.declareFunction_steady {label : Label} {name : Json} {parameters : List Ty}
    {returns : Ty} : (Γ.declareFunction check label name parameters returns subject).Steady := by
  refine (steady_lift (failsInPart_key name)).bind fun key => ?_
  dsimp only
  split
  · exact steady_annotate.bind fun _ => steady_pure
  · exact steady_throw (by rintro ⟨⟩)

theorem Node.checkOptional_steady (value : Node Label) : (value.checkOptional Γ).Steady := by
  unfold Node.checkOptional
  split
  · exact steady_pure
  · exact (Node.checkExpression_steady Γ value).bind fun _ => steady_pure

theorem Node.checkCondition_steady (condition : Node Label) (statement : String) :
    (condition.checkCondition Γ statement).Steady := by
  refine (Node.checkExpression_steady Γ condition).bind fun t => ?_
  split
  · exact steady_throw (by rintro ⟨⟩)
  · exact steady_pure

theorem Node.checkCaseValue_steady (t : Ty) (last : Bool) (branch : Node Label)
    (content : Content Label) : (Node.checkCaseValue Γ t last branch content).Steady := by
  cases content with
  | nothing =>
    simp only [Node.checkCaseValue]
    split
    · exact steady_throw (by rintro ⟨⟩)
    · exact steady_pure
  | node value =>
    refine .unless (by rintro ⟨⟩) ?_
    exact (Node.checkExpression_steady Γ value).bind fun u =>
      steady_lift (failsInPart_requireAssignable t u)
  | bare value => exact .unless (by rintro ⟨⟩) (steady_throw trivial)

end

mutual
theorem Node.checkStatement_steady (check : Nat) (returns : Ty) (Γ : Context) (s : Node Label) :
    (s.checkStatement check returns Γ).Steady := by
  match s with
  | .expressionStmt e =>
    exact .unless (by rintro ⟨⟩) ((Node.checkExpression_steady Γ e).bind fun _ => steady_pure)
  | .declaration label name typeName value =>
    refine (Node.checkOptional_steady value).bind fun found =>
      (steady_lift (failsInPart_resolveOptional typeName)).bind fun declared => ?_
    exact (steady_lift (failsInPart_declaredType declared found (by rintro ⟨⟩))).bind fun _ =>
      Context.declare_steady
  | .assignment receiver value =>
    refine .unless (by rintro ⟨⟩) ?_
    exact (Node.checkExpression_steady Γ receiver).bind fun target =>
      (Node.checkExpression_steady Γ value).bind fun source =>
        (steady_lift (failsInPart_requireAssignable target source)).bind fun _ => steady_pure
  | .conditional condition thenStatements elseStatements =>
    refine (Node.checkCondition_steady condition "if").bind fun _ => .unless (by rintro ⟨⟩) ?_
    exact (Node.checkBlock_steady check returns Γ.child thenStatements).bind fun _ =>
      (Node.checkBlock_steady check returns Γ.child elseStatements).bind fun _ => steady_pure
  | .switch condition cases =>
    refine (Node.checkExpression_steady Γ condition).bind fun t => .unless (by rintro ⟨⟩) ?_
    exact (Node.checkCases_steady check returns Γ t cases).bind fun _ => steady_pure
  | .loop condition statements =>
    exact (Node.checkCondition_steady condition "while").bind fun _ =>
      (Node.checkBlock_steady check returns Γ.child statements).bind fun _ => steady_pure
  | .ret value =>
    exact (Node.checkExpression_steady Γ value).bind fun t =>
      (steady_lift (failsInPart_requireAssignable returns t)).bind fun _ => steady_pure
  | .absent | .list _ | .source .. | .global .. | .parameter .. | .function .. | .case ..
  | .literal .. | .group .. | .binary .. | .access .. | .call .. | .listLiteral .. =>
    exact steady_throw trivial

theorem Node.checkBlock_steady (check : Nat) (returns : Ty) (Γ : Context) (b : Node Label) :
    (b.checkBlock check returns Γ).Steady := by
  cases b with
  | list statements =>
    exact (Node.checkStatements_steady check returns Γ statements).bind fun _ => steady_pure
  | _ => exact steady_throw trivial

theorem Node.checkStatements_steady (check : Nat) (returns : Ty) (Γ : Context)
    (statements : List (Node Label)) :
    (Node.checkStatements check returns Γ statements).Steady := by
  match statements with
  | [] => exact steady_pure
  | statement :: rest =>
    exact (Node.checkStatement_steady check returns Γ statement).bind fun Γ' =>
      Node.checkStatements_steady check returns Γ' rest

theorem Node.checkCases_steady (check : Nat) (returns : Ty) (Γ : Context) (t : Ty)
    (cases : Node Label) : (Node.checkCases check returns Γ t cases).Steady := by
  cases cases with
  | list cases => exact Node.checkEachCase_steady check returns Γ t cases
  | _ => exact steady_throw trivial

theorem Node.checkEachCase_steady (check : Nat) (returns : Ty) (Γ : Context) (t : Ty)
    (cases : List (Node Label)) : (Node.checkEachCase check returns Γ t cases).Steady := by
  match cases with
  | [] => exact steady_pure
  | branch :: rest =>
    exact (Node.checkCase_steady check returns Γ t rest.isEmpty branch).bind fun _ =>
      Node.checkEachCase_steady check returns Γ t rest

theorem Node.checkCase_steady (check : Nat) (returns : Ty) (Γ : Context) (t : Ty) (last : Bool)
    (branch : Node Label) : (branch.checkCase check returns Γ t last).Steady := by
  have other (branch : Node Label) : Steady (do
      Node.checkCaseValue Γ t last branch (← required branch.content?)
      throw (.unfit .missingPart) : Checking Unit) :=
    (steady_lift (failsInPart_required _)).bind fun content =>
      (Node.checkCaseValue_steady t last branch content).bind fun _ => steady_throw trivial
  cases branch with
  | case value statements =>
    exact (Node.checkCaseValue_steady t last (.case value statements) (.ofNode value)).bind
      fun _ => Node.checkBlock_steady check returns Γ.child statements
  | _ => exact other _
end

section

variable (check : Nat) (Γ : Context)

theorem Node.checkGlobal_steady (g : Node Label) : (g.checkGlobal check Γ).Steady := by
  refine (steady_lift (failsInPart_required _)).bind fun d =>
    (steady_lift (failsInPart_resolveOptional d.typeName)).bind fun declared =>
      (steady_lift (failsInPart_required _)).bind fun content => ?_
  extract_lets declare
  have declares (found : Option Ty) : (declare found).Steady := by
    refine (steady_lift (failsInPart_declaredType declared found (by rintro ⟨⟩))).bind fun t => ?_
    cases g with
    | global label name isMutable typeName value => exact Context.declare_steady
    | _ => exact steady_throw trivial
  cases content with
  | node value => exact (Node.checkExpression_steady Γ value).bind fun t => steady_pure.bind declares
  | nothing | bare => exact steady_pure.bind declares

theorem Node.checkParameters_steady (function : Node Label) (header : List (Declared Label × Ty)) :
    (function.checkParameters check Γ header).Steady := by
  induction header generalizing Γ with
  | nil => exact steady_pure
  | cons entry rest ih => exact Context.declare_steady.bind fun Γ' => ih Γ'

theorem Node.checkFunction_steady (f : Node Label) : (f.checkFunction check Γ).Steady := by
  cases f with
  | function label name parameters returnTypeName statements =>
    refine (steady_lift (failsInPart_items parameters)).bind fun items =>
      (steady_lift (failsInPart_headerTypes items)).bind fun header =>
        (steady_lift (failsInPart_resolveOptional returnTypeName)).bind fun returns => ?_
    exact Context.declareFunction_steady.bind fun Γ' =>
      (Node.checkParameters_steady check Γ'.child _ header).bind fun inside =>
        (Node.checkBlock_steady check _ inside statements).bind fun _ => steady_pure
  | _ => exact steady_throw trivial

end

end PlcLang
