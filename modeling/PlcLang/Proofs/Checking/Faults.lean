import PlcLang.Proofs.Checking.Program
import PlcLang.Proofs.Except
import PlcLang.Proofs.Parsing.Lexical
import PlcLang.Tree.Program

/-! What can be wrong with a program that is parsed. -/

namespace PlcLang

namespace Checking

/-- Whatever a walk ends with a fault for is one of some faults. -/
def Blames {α : Type} (P : Fault → Prop) (x : Checking α) : Prop :=
  ∀ σ f σ', x.run.run σ = (.error f, σ') → P f

variable {α β : Type} {P : Fault → Prop}

theorem blames_pure {a : α} : (pure a : Checking α).Blames P := by
  intro σ f σ' h
  change (Except.ok a, σ) = (Except.error f, σ') at h
  simp at h

theorem Blames.bind {x : Checking α} {f : α → Checking β} (first : x.Blames P)
    (rest : ∀ a, (f a).Blames P) : (x >>= f).Blames P := by
  intro σ e σ' h
  simp only [ExceptT.run_bind, StateT.run_bind] at h
  cases walked : x.run.run σ with
  | mk r τ =>
    rw [walked] at h
    cases r with
    | error e' =>
      cases h
      exact first σ e τ walked
    | ok a => exact rest a τ e σ' h

theorem blames_throw {e : Fault} (h : P e) : (throw e : Checking α).Blames P := by
  intro σ f σ' thrown
  cases thrown
  exact h

theorem blames_lift {x : Except Fault α} (h : ∀ f, x = .error f → P f) :
    (liftM x : Checking α).Blames P := by
  intro σ f σ' lifted
  change (x, σ) = (Except.error f, σ') at lifted
  exact h f (Prod.mk.inj lifted).1

/-- What follows a result has only to be right for that result. -/
theorem Blames.of_lift {x : Except Fault α} {f : α → Checking β} (fails : ∀ e, x = .error e → P e)
    (rest : ∀ a, x = .ok a → (f a).Blames P) : (liftM x >>= f).Blames P := by
  cases x with
  | error e =>
    intro σ e' σ' h
    cases h
    exact fails e rfl
  | ok a => exact rest a rfl

theorem blames_annotate {label : Label} {change : Annotation → Annotation} :
    (annotate label change).Blames P := by
  intro σ f σ' h
  cases h

theorem blames_annotateType {label : Label} {t : Ty} : (annotateType label t).Blames P :=
  blames_annotate.bind fun _ => blames_pure

/-- A walk that goes on after a test has passed it. -/
theorem Blames.unless {p : Prop} [Decidable p] {e : Fault} {x : Checking α} (fails : p → P e)
    (rest : ¬p → x.Blames P) : Blames P (if p then throw e >>= fun (_ : PUnit) => x else x) := by
  by_cases hp : p
  · rw [if_pos hp]
    intro σ f σ' thrown
    cases thrown
    exact fails hp
  · rw [if_neg hp]
    exact rest hp

end Checking

open Checking

/-- What may be wrong with a program text. Its shape rules the others out. -/
def Cause.OfText : Cause → Prop
  | .noDefault | .defaultWithValue | .caseWithoutValue | .unknownOperator _ _
  | .unsupportedLiteral _ | .untypedGlobal _ => False
  | _ => True

/-- Errors of the classes that the shape rules out are among the others. -/
theorem Cause.OfText.errorClass {cause : Cause} (h : cause.OfText) :
    cause.errorClass ≠ .switchStructure ∧ cause.errorClass ≠ .unknownOperator := by
  fun_cases Cause.errorClass cause <;>
    first | exact absurd h id | exact ⟨nofun, nofun⟩

/-- An error of a program text, not a limit of the checker. -/
def Fault.OfText : Fault → Prop
  | .problem p => p.cause.OfText
  | _ => False

namespace Fault

variable {f : Fault} {subject : Node Label}

theorem ofText_requireAssignable {target source : Ty}
    (h : requireAssignable target source subject = .error f) : f.OfText := by
  unfold requireAssignable at h
  split at h
  · cases h
  · cases h
    exact trivial

theorem ofText_resolveType {name : String}
    (h : resolveType (.string name) subject = .error f) : f.OfText := by
  rw [resolveType] at h
  rcases Except.bind_eq_error.1 h with unread | ⟨_, _, h⟩
  · cases unread
  · split at h
    · cases h
    · cases h
      exact trivial

theorem ofText_resolveOptional {typeName : Option String}
    (h : resolveOptional (optionalName typeName) subject = .error f) : f.OfText := by
  cases typeName with
  | none => cases h
  | some name =>
    have h : (resolveType (.string name) subject).map some = .error f := h
    exact ofText_resolveType (Except.map_eq_error.1 h)

theorem ofText_literal {value : Literal} (lexical : value.Lexical)
    (h : value.check subject = .error f) : f.OfText := by
  cases value with
  | nil | boolean | character | string => cases h
  | integer n =>
    rw [Literal.check] at h
    split at h
    · cases h
    · have short : digitCount n.natAbs ≤ Integer.digitLimit := lexical
      rw [Fault.ofInteger, Integer.text?, if_pos short] at h
      cases h
      exact trivial
  | decimal d =>
    rw [Literal.check] at h
    split at h
    · cases h
    · cases h
      exact trivial
  | foreign value => exact lexical.elim

theorem ofText_numericType {op : Operator} {left right : Node Label} {l r : Ty}
    (h : numericType op left right l r = .error f) : f.OfText := by
  rw [numericType] at h
  split at h
  · rcases Except.bind_eq_error.1 h with refused | ⟨_, _, h⟩
    · exact ofText_requireAssignable refused
    · cases h
  · cases h
    exact trivial

theorem ofText_binaryType {op : Operator} {left right : Node Label} {l r : Ty}
    (known : op ∈ Operator.all) (h : binaryType op left right subject l r = .error f) :
    f.OfText := by
  cases op with
  | other given => simp [Operator.all] at known
  | minus | times | divide => exact ofText_numericType h
  | plus =>
    simp only [binaryType] at h
    split at h
    · cases h
    · exact ofText_numericType h
  | and | or | power =>
    rcases Except.bind_eq_error.1 h with refused | ⟨_, _, h⟩
    · exact ofText_requireAssignable refused
    · rcases Except.bind_eq_error.1 h with refused | ⟨_, _, h⟩
      · exact ofText_requireAssignable refused
      · cases h
  | less | greater | equal | unequal =>
    rcases Except.bind_eq_error.1 h with refused | ⟨_, _, h⟩
    · exact ofText_requireAssignable refused
    · rcases Except.bind_eq_error.1 h with refused | ⟨_, _, h⟩
      · exact ofText_requireAssignable refused
      · split at h
        · cases h
        · cases h
          exact trivial

theorem ofText_bindingOf {Γ : Context} {name : String}
    (h : Γ.bindingOf (.string name) subject = .error f) : f.OfText := by
  rw [Context.bindingOf] at h
  rcases Except.bind_eq_error.1 h with unread | ⟨_, _, h⟩
  · cases unread
  · split at h
    · cases h
    · cases h
      exact trivial

theorem ofText_signatureOf {Γ : Context} {name : String} {arity : Nat}
    (h : Γ.signatureOf (.string name) arity subject = .error f) : f.OfText := by
  rw [Context.signatureOf] at h
  rcases Except.bind_eq_error.1 h with unread | ⟨_, _, h⟩
  · cases unread
  · split at h
    · cases h
    · cases h
      exact trivial

theorem ofText_declaredType {declared found : Option Ty} {untyped : Cause}
    (unnamed : declared = none → found = none → untyped.OfText)
    (h : declaredType declared found untyped subject = .error f) : f.OfText := by
  cases declared with
  | none =>
    cases found with
    | none =>
      cases h
      exact unnamed rfl rfl
    | some t => cases h
  | some d =>
    cases found with
    | none => cases h
    | some t =>
      rcases Except.bind_eq_error.1 h with refused | ⟨_, _, h⟩
      · exact ofText_requireAssignable refused
      · cases h

end Fault

section

variable {Γ : Context} {check : Nat} {returns : Ty}

theorem Context.blames_declare {label : Label} {name : String} {t : Ty} {isMutable : Bool}
    {subject : Node Label} :
    (Γ.declare check label (.string name) t isMutable subject).Blames Fault.OfText := by
  refine (blames_lift fun f h => ?_).bind fun key => ?_
  · cases h
  · dsimp only
    split
    · exact blames_annotate.bind fun _ => blames_pure
    · exact blames_throw trivial

theorem Context.blames_declareFunction {label : Label} {name : String} {parameters : List Ty}
    {t : Ty} {subject : Node Label} :
    (Γ.declareFunction check label (.string name) parameters t subject).Blames Fault.OfText := by
  refine (blames_lift fun f h => ?_).bind fun key => ?_
  · cases h
  · dsimp only
    split
    · exact blames_annotate.bind fun _ => blames_pure
    · exact blames_throw trivial

theorem Expr.isAbsent_toNode (e : Expr) (l : Label) :
    (e.toNode.withLabels l).1.isAbsent = false := by
  cases e with
  | access name offset => cases offset <;> rfl
  | _ => rfl

mutual
/-- What may be wrong with an expression of a program text, wherever its labels begin. -/
theorem Expr.blames (e : Expr) (shaped : e.Shaped .lexical) (l : Label) :
    ((e.toNode.withLabels l).1.checkExpression Γ).Blames Fault.OfText := by
  match e with
  | .literal value =>
    change (Node.checkExpression Γ (.literal l value)).Blames _
    rw [Node.checkExpression]
    exact (blames_lift fun f h => Fault.ofText_literal shaped h).bind fun _ => blames_annotateType
  | .group inner =>
    change (Node.checkExpression Γ (.group l (inner.toNode.withLabels (l + 1)).1)).Blames _
    rw [Node.checkExpression]
    exact .unless (fun _ => trivial) fun _ =>
      (inner.blames shaped (l + 1)).bind fun _ => blames_annotateType
  | .binary op left right =>
    obtain ⟨known, _, _, shapedLeft, shapedRight⟩ := shaped
    change (Node.checkExpression Γ (.binary l op _ _)).Blames _
    rw [Node.checkExpression]
    refine (left.blames shapedLeft (l + 1)).bind fun _ => (right.blames shapedRight _).bind fun _ => ?_
    exact (blames_lift fun f h => Fault.ofText_binaryType known h).bind fun _ => blames_annotateType
  | .access name none =>
    change (Node.checkExpression Γ (.access l (.string name) .absent)).Blames _
    rw [Node.checkExpression]
    exact (blames_lift fun f h => Fault.ofText_bindingOf h).bind fun _ =>
      blames_annotate.bind fun _ => blames_annotateType
  | .access name (some offset) =>
    change (Node.checkExpression Γ (.access l (.string name) _)).Blames _
    rw [Node.checkExpression, offset.isAbsent_toNode]
    refine (offset.blames shaped.2 (l + 1)).bind fun t => .unless (fun _ => trivial) fun _ => ?_
    exact (blames_lift fun f h => Fault.ofText_bindingOf h).bind fun _ =>
      blames_annotate.bind fun _ => blames_annotateType
  | .call name arguments =>
    change (Node.checkExpression Γ (.call l (.string name) (.list _))).Blames _
    rw [Node.checkExpression]
    refine (blames_lift fun f h => Fault.ofText_signatureOf h).bind fun f => ?_
    exact (Expr.blames_arguments arguments shaped.2 (l + 1) f.parameters).bind fun _ =>
      blames_annotate.bind fun _ => blames_annotateType
  | .list elements =>
    change (Node.checkExpression Γ (.listLiteral l (.list _))).Blames _
    rw [Node.checkExpression]
    exact (Expr.blames_elements elements shaped (l + 1)).bind fun _ => blames_annotateType

theorem Expr.blames_arguments (es : List Expr) (shaped : Expr.AllShaped .lexical es) (l : Label)
    (parameters : List Ty) :
    (Node.checkArguments Γ (Node.allWithLabels (Expr.toNodes es) l).1 parameters).Blames
      Fault.OfText := by
  match es, parameters with
  | [], _ =>
    change (Node.checkArguments Γ [] _).Blames _
    rw [Node.checkArguments]
    · exact blames_pure
    · simp
  | e :: rest, [] =>
    change (Node.checkArguments Γ (_ :: _) []).Blames _
    rw [Node.checkArguments]
    · exact blames_pure
    · simp
  | e :: rest, p :: parameters =>
    change (Node.checkArguments Γ (_ :: _) (p :: parameters)).Blames _
    rw [Node.checkArguments]
    refine (e.blames shaped.1 l).bind fun t => ?_
    exact (blames_lift fun f h => Fault.ofText_requireAssignable h).bind fun _ =>
      Expr.blames_arguments rest shaped.2 _ parameters

theorem Expr.blames_elements (es : List Expr) (shaped : Expr.AllShaped .lexical es) (l : Label) :
    (Node.checkElements Γ (Node.allWithLabels (Expr.toNodes es) l).1).Blames Fault.OfText := by
  match es with
  | [] =>
    change (Node.checkElements Γ []).Blames _
    rw [Node.checkElements]
    exact blames_pure
  | e :: rest =>
    change (Node.checkElements Γ (_ :: _)).Blames _
    rw [Node.checkElements]
    exact (e.blames shaped.1 l).bind fun _ =>
      (Expr.blames_elements rest shaped.2 _).bind fun _ => blames_pure
end

theorem Expr.blames_optional {value : Option Expr} (shaped : ∀ e ∈ value, e.Shaped .lexical)
    (l : Label) :
    (((Expr.optionalNode value).withLabels l).1.checkOptional Γ).Blames Fault.OfText := by
  cases value with
  | none => exact blames_pure
  | some e =>
    change (Node.checkOptional Γ (e.toNode.withLabels l).1).Blames _
    rw [Node.checkOptional, e.isAbsent_toNode]
    exact (e.blames (shaped e rfl) l).bind fun _ => blames_pure

theorem Expr.blames_condition {e : Expr} (shaped : e.Shaped .lexical) (l : Label)
    (statement : String) :
    ((e.toNode.withLabels l).1.checkCondition Γ statement).Blames Fault.OfText := by
  refine (e.blames shaped l).bind fun t => ?_
  split
  · exact blames_throw trivial
  · exact blames_pure

theorem Case.toNodes_isEmpty {cases : List Case} (shaped : Case.AllShaped .lexical cases)
    (l : Label) : (Node.allWithLabels (Case.toNodes cases) l).1.isEmpty = false := by
  cases cases with
  | nil => exact shaped.elim
  | cons c rest => rfl

/-- Of the branches, the last one and no other is without a value. -/
theorem Case.blames_value {value : Option Expr} {last : Bool} {t : Ty} {branch : Node Label}
    (shaped : ∀ e ∈ value, e.Shaped .lexical) (fits : value.isNone = last) (l : Label) :
    (Node.checkCaseValue Γ t last branch
      (.ofNode ((Expr.optionalNode value).withLabels l).1)).Blames Fault.OfText := by
  subst fits
  cases value with
  | none => exact blames_pure
  | some e =>
    have given := content_ofNode (e.isAbsent_toNode l)
    change (Node.checkCaseValue Γ t false branch (.ofNode (e.toNode.withLabels l).1)).Blames _
    rw [given]
    refine (e.blames (shaped e rfl) l).bind fun u => ?_
    exact blames_lift fun f h => Fault.ofText_requireAssignable h

mutual
/-- What may be wrong with a statement of a program text. -/
theorem Stmt.blames (s : Stmt) (shaped : s.Shaped .lexical) (Γ : Context) (l : Label) :
    ((s.toNode.withLabels l).1.checkStatement check returns Γ).Blames Fault.OfText := by
  match s with
  | .expression e =>
    change (Node.checkStatement check returns Γ (.expressionStmt _)).Blames _
    rw [Node.checkStatement]
    exact .unless (fun _ => trivial) fun _ => (e.blames shaped l).bind fun _ => blames_pure
  | .declaration name typeName value =>
    change (Node.checkStatement check returns Γ (.declaration l (.string name) _ _)).Blames _
    rw [Node.checkStatement]
    refine (Expr.blames_optional shaped.2.2 (l + 1)).bind fun found => ?_
    refine (blames_lift fun f h => Fault.ofText_resolveOptional h).bind fun declared => ?_
    refine (blames_lift fun f h => ?_).bind fun t => Context.blames_declare
    have untyped : (Cause.untypedVariable (.string name)).OfText := trivial
    exact Fault.ofText_declaredType (fun _ _ => untyped) h
  | .assignment receiver value =>
    change (Node.checkStatement check returns Γ (.assignment _ _)).Blames _
    rw [Node.checkStatement]
    refine .unless (fun _ => trivial) fun _ => ?_
    refine (receiver.blames shaped.1 l).bind fun _ => (value.blames shaped.2 _).bind fun _ => ?_
    exact (blames_lift fun f h => Fault.ofText_requireAssignable h).bind fun _ => blames_pure
  | .conditional condition thenBody elseBody =>
    obtain ⟨test, first, second⟩ := shaped
    change (Node.checkStatement check returns Γ (.conditional _ (.list _) (.list _))).Blames _
    rw [Node.checkStatement]
    refine (Expr.blames_condition test l "if").bind fun _ => .unless (fun _ => trivial) fun _ => ?_
    refine (Stmt.blames_block thenBody first Γ.child _).bind fun _ => ?_
    exact (Stmt.blames_block elseBody second Γ.child _).bind fun _ => blames_pure
  | .switch condition cases =>
    obtain ⟨test, branches⟩ := shaped
    change (Node.checkStatement check returns Γ (.switch _ (.list _))).Blames _
    rw [Node.checkStatement]
    refine (condition.blames test l).bind fun t => .unless (fun empty => ?_) fun _ => ?_
    · rw [Node.isEmpty, Case.toNodes_isEmpty branches] at empty
      cases empty
    · exact (Case.blames_each cases branches Γ t _).bind fun _ => blames_pure
  | .loop condition body =>
    change (Node.checkStatement check returns Γ (.loop _ (.list _))).Blames _
    rw [Node.checkStatement]
    refine (Expr.blames_condition shaped.1 l "while").bind fun _ => ?_
    exact (Stmt.blames_block body shaped.2 Γ.child _).bind fun _ => blames_pure
  | .ret value =>
    change (Node.checkStatement check returns Γ (.ret _)).Blames _
    rw [Node.checkStatement]
    refine (value.blames shaped l).bind fun t => ?_
    exact (blames_lift fun f h => Fault.ofText_requireAssignable h).bind fun _ => blames_pure

theorem Stmt.blames_block (ss : List Stmt) (shaped : Stmt.AllShaped .lexical ss) (Γ : Context)
    (l : Label) :
    (Node.checkBlock check returns Γ (.list (Node.allWithLabels (Stmt.toNodes ss) l).1)).Blames
      Fault.OfText := by
  rw [Node.checkBlock]
  exact (Stmt.blames_all ss shaped Γ l).bind fun _ => blames_pure

theorem Stmt.blames_all (ss : List Stmt) (shaped : Stmt.AllShaped .lexical ss) (Γ : Context)
    (l : Label) :
    (Node.checkStatements check returns Γ (Node.allWithLabels (Stmt.toNodes ss) l).1).Blames
      Fault.OfText := by
  match ss with
  | [] =>
    change (Node.checkStatements check returns Γ []).Blames _
    rw [Node.checkStatements]
    exact blames_pure
  | s :: rest =>
    change (Node.checkStatements check returns Γ (_ :: _)).Blames _
    rw [Node.checkStatements]
    exact (s.blames shaped.1 Γ l).bind fun Γ' => Stmt.blames_all rest shaped.2 Γ' _

theorem Case.blames_each (cases : List Case) (shaped : Case.AllShaped .lexical cases) (Γ : Context)
    (t : Ty) (l : Label) :
    (Node.checkEachCase check returns Γ t (Node.allWithLabels (Case.toNodes cases) l).1).Blames
      Fault.OfText := by
  match cases, shaped with
  | .mk (some value) body :: rest, ⟨first, second, others⟩ =>
    change (Node.checkEachCase check returns Γ t (.case _ (.list _) :: _)).Blames _
    rw [Node.checkEachCase, Node.checkCase, Case.toNodes_isEmpty others]
    refine ((Case.blames_value (fun e h => ?_) rfl l).bind fun _ =>
      Stmt.blames_block body second Γ.child _).bind fun _ => Case.blames_each rest others Γ t _
    exact Option.mem_some_iff.1 h ▸ first
  | .mk none body :: rest, ⟨shaped, last⟩ =>
    subst last
    change (Node.checkEachCase check returns Γ t [.case .absent (.list _)]).Blames _
    rw [Node.checkEachCase, Node.checkCase]
    have alone : ∀ e ∈ (none : Option Expr), e.Shaped .lexical := by simp
    refine ((Case.blames_value alone rfl l).bind fun _ =>
      Stmt.blames_block body shaped Γ.child _).bind fun _ => ?_
    rw [Node.checkEachCase]
    exact blames_pure
end

/-- A global of a program text has a type name. -/
theorem Global.blames {g : Global} (shaped : g.Shaped .lexical) (l : Label) :
    ((g.toNode.withLabels l).1.checkGlobal check Γ).Blames Fault.OfText := by
  obtain ⟨name, isMutable, typeName, value⟩ := g
  change (Node.checkGlobal check Γ (.global l (.string name) isMutable (.string typeName)
    ((Expr.optionalNode value).withLabels (l + 1)).1)).Blames _
  rw [Node.checkGlobal]
  refine .of_lift (fun f h => by cases h) fun d same => ?_
  cases same
  have resolves {subject : Node Label} {f : Fault}
      (h : resolveOptional (optionalName (some typeName)) subject = .error f) : f.OfText :=
    Fault.ofText_resolveOptional h
  refine .of_lift (fun f h => resolves h) fun declared named => ?_
  have typed : declared ≠ none := by
    rintro rfl
    have named : (resolveType (.string typeName) _).map some = .ok none := named
    obtain ⟨_, -, absurd⟩ := Except.map_eq_ok.1 named
    cases absurd
  refine .of_lift (fun f h => by cases h) fun content same => ?_
  cases same
  have settled : ∀ found subject, Blames Fault.OfText (do
      let type ← declaredType declared found (.untypedGlobal (.string name)) subject
      Γ.declare check l (.string name) type isMutable subject) := by
    intro found subject
    refine (blames_lift fun f h => ?_).bind fun t => Context.blames_declare
    exact Fault.ofText_declaredType (fun none => absurd none typed) h
  cases value with
  | none => exact blames_pure.bind fun found => settled found _
  | some e =>
    have given := content_ofNode (e.isAbsent_toNode (l + 1))
    dsimp only [Expr.optionalNode]
    rw [given]
    exact (e.blames (shaped.value e rfl) (l + 1)).bind fun _ =>
      blames_pure.bind fun found => settled found _

theorem Function.headerTypes_ofText {function : Node Label} (ps : List Parameter) (l : Label)
    {f : Fault}
    (h : function.headerTypes (Node.allWithLabels (ps.map Parameter.toNode) l).1 = .error f) :
    f.OfText := by
  induction ps generalizing l with
  | nil => cases h
  | cons p rest ih =>
    have h : (resolveType (.string p.typeName) function >>= fun t =>
      function.headerTypes (Node.allWithLabels (rest.map Parameter.toNode) (l + 1)).1 >>= fun ts =>
        pure ((⟨l, .string p.name, .string p.typeName⟩, t) :: ts)) = .error f := h
    rcases Except.bind_eq_error.1 h with unknown | ⟨_, _, h⟩
    · exact Fault.ofText_resolveType unknown
    · rcases Except.bind_eq_error.1 h with other | ⟨_, _, h⟩
      · exact ih _ other
      · cases h

theorem Function.headerTypes_named {function : Node Label} (ps : List Parameter) (l : Label)
    {header : List (Declared Label × Ty)}
    (h : function.headerTypes (Node.allWithLabels (ps.map Parameter.toNode) l).1 = .ok header) :
    ∀ p ∈ header, ∃ name, p.1.name = .string name := by
  induction ps generalizing l header with
  | nil =>
    cases h
    simp
  | cons p rest ih =>
    obtain ⟨d, t, others, same, -, remaining, rfl⟩ := headerTypes_cons.1 h
    cases same
    intro q hq
    rcases List.mem_cons.1 hq with rfl | hq
    · exact ⟨p.name, rfl⟩
    · exact ih _ remaining q hq

theorem Function.blames_parameters {function : Node Label} {header : List (Declared Label × Ty)}
    (named : ∀ p ∈ header, ∃ name, p.1.name = .string name) :
    (function.checkParameters check Γ header).Blames Fault.OfText := by
  induction header generalizing Γ with
  | nil => exact blames_pure
  | cons p rest ih =>
    obtain ⟨d, t⟩ := p
    obtain ⟨name, same⟩ := named _ List.mem_cons_self
    rw [Node.checkParameters]
    simp only at same
    rw [same]
    exact Context.blames_declare.bind fun Γ' => ih fun q hq => named q (List.mem_cons_of_mem _ hq)

theorem Function.blames {fn : Function} (shaped : fn.Shaped .lexical) (l : Label) :
    ((fn.toNode.withLabels l).1.checkFunction check Γ).Blames Fault.OfText := by
  change (Node.checkFunction check Γ (.function l (.string fn.name)
    (.list (Node.allWithLabels (fn.parameters.map Parameter.toNode) (l + 1)).1)
    (optionalName fn.returnTypeName) (.list _))).Blames _
  rw [Node.checkFunction]
  refine .of_lift (fun f h => by cases h) fun parameters same => ?_
  cases same
  refine .of_lift (fun f h => Function.headerTypes_ofText _ _ h) fun header typed => ?_
  refine (blames_lift fun f h => Fault.ofText_resolveOptional h).bind fun returns => ?_
  refine Context.blames_declareFunction.bind fun Γ' => ?_
  have named := Function.headerTypes_named _ _ typed
  refine (Function.blames_parameters named).bind fun inside => ?_
  exact (Stmt.blames_block fn.body shaped.body inside _).bind fun _ => blames_pure

theorem Function.blames_main {fn : Function} (l : Label) :
    (liftM (fn.toNode.withLabels l).1.checkMain : Checking Bool).Blames Fault.OfText := by
  refine blames_lift fun f h => ?_
  have h : (Node.function l (.string fn.name) _ (optionalName fn.returnTypeName) _).checkMain =
    .error f := h
  rw [Node.checkMain] at h
  rcases Except.bind_eq_error.1 h with missing | ⟨name, -, h⟩
  · cases missing
  · split at h
    · cases h
    · split at h
      · cases h
      · split at h
        · cases h
          exact trivial
        · cases h

theorem Global.blames_all {gs : List Global} (shaped : ∀ g ∈ gs, g.Shaped .lexical) (l : Label) :
    (Node.checkGlobals check Γ (Node.allWithLabels (gs.map Global.toNode) l).1).Blames
      Fault.OfText := by
  induction gs generalizing Γ l with
  | nil => exact blames_pure
  | cons g rest ih =>
    change (Node.checkGlobals check Γ (_ :: _)).Blames _
    rw [Node.checkGlobals]
    exact (Global.blames (shaped g List.mem_cons_self) l).bind fun Γ' =>
      ih (fun g' h => shaped g' (List.mem_cons_of_mem _ h)) _

theorem Function.blames_all {fs : List Function} (shaped : ∀ fn ∈ fs, fn.Shaped .lexical)
    (l : Label) :
    (Node.checkFunctions check Γ (Node.allWithLabels (fs.map Function.toNode) l).1).Blames
      Fault.OfText := by
  induction fs generalizing Γ l with
  | nil => exact blames_pure
  | cons fn rest ih =>
    change (Node.checkFunctions check Γ (_ :: _)).Blames _
    rw [Node.checkFunctions]
    refine (Function.blames_main l).bind fun isMain => ?_
    refine (Function.blames (shaped fn List.mem_cons_self) l).bind fun Γ' => ?_
    exact (ih (fun f h => shaped f (List.mem_cons_of_mem _ h)) _).bind fun _ => blames_pure

/-- What may be wrong with a program text as a whole. -/
theorem Program.blames {p : Program} (shaped : p.Shaped .lexical) (outer : List StaticBlock)
    (l : Label) :
    ((p.toNode.withLabels l).1.checkProgram check outer).Blames Fault.OfText := by
  change (Node.checkProgram check outer (.source
    (.list (Node.allWithLabels (p.globals.map Global.toNode) l).1)
    (.list (Node.allWithLabels (p.functions.map Function.toNode) _).1))).Blames _
  rw [Node.checkProgram]
  refine .of_lift (fun f h => by cases h) fun globals same => ?_
  cases same
  refine (Global.blames_all shaped.globals l).bind fun Γ => ?_
  refine .of_lift (fun f h => by cases h) fun functions same => ?_
  cases same
  refine (Function.blames_all shaped.functions _).bind fun _ => ?_
  exact .unless (fun _ => trivial) fun _ => blames_pure

end

end PlcLang
