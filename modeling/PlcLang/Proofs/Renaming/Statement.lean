import Mathlib.Data.List.Nodup
import PlcLang.Proofs.Checking.Statement
import PlcLang.Proofs.Renaming.Expression

namespace PlcLang

open Checking Annotations

/-- The variables in scope, and those that are declared at these labels later, have other names that
are all different. -/
def Context.Named (r : Renaming) (Γ : Context) (labels : List Label) : Prop :=
  (Γ.variables.map (fun b => r.name b.id.label) ++ labels.map r.name).Nodup

namespace Context.Named

variable {r : Renaming} {Γ Γ' : Context} {xs ys : List Label} {label : Label} {key : Key}
  {b : Binding}

theorem told (h : Γ.Named r xs) : Γ.Told r :=
  fun _ hb _ hc => List.inj_on_of_nodup_map (List.nodup_append.1 h).1 hb hc

theorem mono (h : Γ.Named r ys) (hs : xs.Sublist ys) : Γ.Named r xs :=
  List.Nodup.sublist ((List.Sublist.refl _).append (hs.map _)) h

theorem left (h : Γ.Named r (xs ++ ys)) : Γ.Named r xs :=
  h.mono (List.sublist_append_left xs ys)

theorem right (h : Γ.Named r (xs ++ ys)) : Γ.Named r ys :=
  h.mono (List.sublist_append_right xs ys)

theorem child (h : Γ.Named r xs) : Γ.child.Named r xs := h

/-- A variable that is declared under its other name is new under it, too. -/
theorem addVariable (h : Γ.Named r (b.id.label :: xs)) (added : Γ.addVariable key b = some Γ') :
    (Γ.rename r).addVariable (.text (r.name b.id.label)) (b.rename r) = some (Γ'.rename r) ∧
      Γ'.Named r xs := by
  obtain ⟨free, rfl⟩ := addVariable_eq added
  have vars := Table.put_of_free b free
  have new : (Γ.inner.vars.map (·.2)).find? (fun c => r.name c.id.label == r.name b.id.label) =
      none := by
    rw [List.find?_eq_none]
    intro c hc same
    have mem : c ∈ Γ.variables :=
      List.mem_flatMap.2 ⟨Γ.inner, List.mem_cons_self, hc⟩
    have known : r.name c.id.label ∈ Γ.variables.map fun b => r.name b.id.label :=
      List.mem_map.2 ⟨c, mem, rfl⟩
    have declared : r.name b.id.label ∈ (b.id.label :: xs).map r.name := List.mem_cons_self
    exact (List.nodup_append.1 h).2.2 _ known _ declared (beq_iff_eq.1 same)
  have free' : (Γ.rename r).inner.vars.lookup (.text (r.name b.id.label)) = none := by
    change (Γ.inner.vars.map _).lookup _ = none
    rw [lookup_rename, new]
    rfl
  constructor
  · simp only [Context.addVariable, Table.has, free', Option.isSome_none, Bool.false_eq_true,
      ↓reduceIte, Table.put_of_free _ free', vars]
    simp only [Context.rename, StaticBlock.rename, List.map_append, List.map_cons, List.map_nil]
  · refine (List.Perm.nodup_iff ?_).1 h
    simp only [Context.variables, blocks, List.flatMap_cons, List.map_append, List.map_cons,
      List.map_nil, vars, List.append_assoc, List.cons_append, List.nil_append]
    exact List.Perm.append_left _ List.perm_middle

theorem addFunction {f : Signature} (h : Γ.Named r xs) (added : Γ.addFunction key f = some Γ') :
    (Γ.rename r).addFunction key f = some (Γ'.rename r) ∧ Γ'.Named r xs := by
  obtain ⟨free, rfl⟩ := addFunction_eq added
  refine ⟨?_, h⟩
  have free' : (Γ.rename r).inner.functions.lookup (key, f.arity) = none := free
  simp only [Context.addFunction, Table.has, free', Option.isSome_none, Bool.false_eq_true,
    ↓reduceIte]
  rfl

end Context.Named

/-! Rules that show a node or a name only in their faults. -/

theorem resolveOptional_concur (typeName : Json) (subject subject' : Node Label) :
    Concur Eq (resolveOptional typeName subject) (resolveOptional typeName subject') := by
  unfold resolveOptional
  split
  · exact .ok rfl
  · exact (resolveType_concur typeName subject subject').map fun _ _ => congrArg some

theorem declaredType_concur (declared found : Option Ty) (untyped untyped' : Cause)
    (subject subject' : Node Label) (same : untyped.errorClass = untyped'.errorClass) :
    Concur Eq (declaredType declared found untyped subject)
      (declaredType declared found untyped' subject') := by
  cases declared with
  | none =>
    cases found with
    | none => exact .error (congrArg Sum.inl same)
    | some t => exact .ok rfl
  | some d =>
    cases found with
    | none => exact .ok rfl
    | some t =>
      exact (requireAssignable_concur d t subject subject').bind fun _ _ _ => .refl _

section

variable {r : Renaming} {Γ Γ' : Context} {σ σ' : Annotations} {check : Nat} {returns : Ty}
  {xs : List Label}

/-- A variable is declared under its other name. -/
theorem declare_rename {label : Label} {name : Json} {t : Ty} {isMutable : Bool}
    {subject : Node Label} (subject' : Node Label) (named : Γ.Named r (label :: xs))
    (h : (Γ.declare check label name t isMutable subject).Gives σ Γ' σ') :
    ((Γ.rename r).declare check label (r.declared label) t isMutable subject').Gives (σ.rename r)
        (Γ'.rename r) (σ'.rename r) ∧ Γ'.Named r xs := by
  obtain ⟨key, _, added, rfl⟩ := gives_declare.1 h
  obtain ⟨added, named⟩ := named.addVariable added
  have noted : Annotations.rename r (σ.modify label fun a => { a with binding := some _ }) = _ :=
    rename_binding (b := ⟨⟨check, label⟩, name, t, isMutable⟩)
  exact ⟨gives_declare.2 ⟨_, rfl, added, noted.symm⟩, named⟩

theorem checkOptional_rename (told : Γ.Told r) {value : Node Label} {u : Option Ty}
    (h : (value.checkOptional Γ).Gives σ u σ') (last : Lasts r.found σ' value.labels) :
    ((value.rename r).checkOptional (Γ.rename r)).Gives (σ.rename r) u (σ'.rename r) := by
  rcases gives_checkOptional.1 h with ⟨rfl, rfl, rfl⟩ | ⟨given, v, hv, rfl⟩
  · exact gives_checkOptional.2 (.inl ⟨rfl, rfl, rfl⟩)
  · rw [← Node.isAbsent_rename (r := r)] at given
    exact gives_checkOptional.2 (.inr ⟨given, v, checkExpression_rename told value hv last, rfl⟩)

mutual
/-- A statement with the other names is accepted, with the same variables in scope behind it. -/
theorem checkStatement_rename (s : Node Label) {Γ Γ' : Context} {σ σ' : Annotations}
    {xs : List Label} (h : (s.checkStatement check returns Γ).Gives σ Γ' σ')
    (last : Lasts r.found σ' s.labels) (named : Γ.Named r (s.declarations ++ xs)) :
    ((s.rename r).checkStatement check returns (Γ.rename r)).Gives (σ.rename r) (Γ'.rename r)
        (σ'.rename r) ∧ Γ'.Named r xs := by
  have told := named.told
  match s with
  | .expressionStmt e =>
    obtain ⟨t, call, he, rfl⟩ := gives_expressionStmt.1 h
    rw [← Node.isCall_rename (r := r)] at call
    have typed := checkExpression_rename told e he last
    exact ⟨gives_expressionStmt.2 ⟨t, call, typed, rfl⟩, named.right⟩
  | .declaration label name typeName value =>
    obtain ⟨u, declared, t, _, hv, hd, ht, h⟩ := gives_declaration.1 h
    have typeName' := (resolveOptional_concur typeName _
      (.declaration label (r.declared label) typeName (value.rename r))).eq_ok hd
    have type := (declaredType_concur declared u (.untypedVariable name)
      (.untypedVariable (r.declared label)) _
      (.declaration label (r.declared label) typeName (value.rename r)) rfl).eq_ok ht
    have one : Γ.Named r (label :: xs) :=
      named.mono ((List.sublist_append_right _ _).cons_cons label)
    obtain ⟨declares, named⟩ := declare_rename
      (.declaration label (r.declared label) typeName (value.rename r)) one h
    obtain ⟨key, _, _, rfl⟩ := gives_declare.1 h
    have initial := checkOptional_rename told hv last.tail
    exact ⟨gives_declaration.2 ⟨u, declared, t, _, initial, typeName', type, declares⟩, named⟩
  | .assignment receiver value =>
    obtain ⟨t, u, _, access, ht, hu, fits, rfl⟩ := gives_assignment.1 h
    rw [← Node.isAccess_rename (r := r)] at access
    have target := checkExpression_rename told receiver ht (last.left (within_of_check hu))
    have source := checkExpression_rename told value hu last.right
    exact ⟨gives_assignment.2 ⟨t, u, _, access, target, source, fits, rfl⟩, named.right⟩
  | .conditional condition thenStatements elseStatements =>
    obtain ⟨_, _, hc, given, ht, he, rfl⟩ := gives_conditional.1 h
    rw [← Node.isEmpty_rename (r := r)] at given
    have wt := within_of_checkBlock ht
    have we := within_of_checkBlock he
    have parts : Γ.Named r (condition.declarations ++
        ((thenStatements.declarations ++ elseStatements.declarations) ++ xs)) := by
      simpa [Node.declarations] using named
    have test := checkExpression_rename told condition hc (last.left (wt.append we))
    have thens := checkBlock_rename thenStatements ht (last.right.left we)
      parts.right.left.left.child
    have elses := checkBlock_rename elseStatements he last.right.right parts.right.left.right.child
    exact ⟨gives_conditional.2 ⟨_, _, test, given, thens, elses, rfl⟩, named.right⟩
  | .switch condition cases =>
    obtain ⟨t, _, hc, given, hb, rfl⟩ := gives_switch.1 h
    rw [← Node.isEmpty_rename (r := r)] at given
    cases cases with
    | list cases =>
      have subject := checkExpression_rename told condition hc (last.left (within_of_checkCases hb))
      have branches := checkEachCase_rename cases hb last.right named.left.right
      exact ⟨gives_switch.2 ⟨t, _, subject, given, branches, rfl⟩, named.right⟩
    | _ => exact (gives_throw hb).elim
  | .loop condition statements =>
    obtain ⟨_, hc, hb, rfl⟩ := gives_loop.1 h
    have test := checkExpression_rename told condition hc (last.left (within_of_checkBlock hb))
    have body := checkBlock_rename statements hb last.right named.left.right.child
    exact ⟨gives_loop.2 ⟨_, test, body, rfl⟩, named.right⟩
  | .ret value =>
    obtain ⟨t, ht, fits, rfl⟩ := gives_ret.1 h
    have typed := checkExpression_rename told value ht last
    exact ⟨gives_ret.2 ⟨t, typed, fits, rfl⟩, named.right⟩
  | .absent | .list _ | .source .. | .global .. | .parameter .. | .function .. | .case ..
  | .literal .. | .group .. | .binary .. | .access .. | .call .. | .listLiteral .. =>
    exact (gives_throw h).elim

theorem checkBlock_rename (b : Node Label) {Γ : Context} {u : Unit} {σ σ' : Annotations}
    (h : (b.checkBlock check returns Γ).Gives σ u σ') (last : Lasts r.found σ' b.labels)
    (named : Γ.Named r b.declarations) :
    ((b.rename r).checkBlock check returns (Γ.rename r)).Gives (σ.rename r) u (σ'.rename r) := by
  cases b with
  | list statements =>
    obtain ⟨Γ', hs⟩ := gives_checkBlock.1 h
    exact gives_checkBlock.2 ⟨_, checkStatements_rename statements hs last named⟩
  | _ => exact (gives_throw h).elim

theorem checkStatements_rename (statements : List (Node Label)) {Γ Γ' : Context}
    {σ σ' : Annotations} (h : (Node.checkStatements check returns Γ statements).Gives σ Γ' σ')
    (last : Lasts r.found σ' (Node.allLabels statements))
    (named : Γ.Named r (Node.allDeclarations statements)) :
    (Node.checkStatements check returns (Γ.rename r) (Node.renameAll r statements)).Gives
      (σ.rename r) (Γ'.rename r) (σ'.rename r) := by
  match statements with
  | [] =>
    obtain ⟨rfl, rfl⟩ := gives_pure.1 h
    exact gives_pure.2 ⟨rfl, rfl⟩
  | statement :: rest =>
    obtain ⟨Γ₁, _, hs, ho⟩ := gives_bind.1 h
    have wo := within_of_checkStatements ho
    obtain ⟨first, named⟩ := checkStatement_rename statement hs (last.left wo) named
    have others := checkStatements_rename rest ho last.right named
    exact gives_bind.2 ⟨_, _, first, others⟩

theorem checkEachCase_rename (cases : List (Node Label)) {Γ : Context} {t : Ty} {u : Unit}
    {σ σ' : Annotations} (h : (Node.checkEachCase check returns Γ t cases).Gives σ u σ')
    (last : Lasts r.found σ' (Node.allLabels cases))
    (named : Γ.Named r (Node.allDeclarations cases)) :
    (Node.checkEachCase check returns (Γ.rename r) t (Node.renameAll r cases)).Gives (σ.rename r) u
      (σ'.rename r) := by
  match cases with
  | [] =>
    obtain ⟨_, rfl⟩ := gives_pure.1 h
    exact gives_pure.2 ⟨rfl, rfl⟩
  | branch :: rest =>
    obtain ⟨_, _, hb, ho⟩ := gives_bind.1 h
    have wo := within_of_checkCases ho
    have others := checkEachCase_rename rest ho last.right named.right
    cases branch with
    | case value statements =>
      obtain ⟨_, hv, hb⟩ := gives_checkCase.1 hb
      have here := (last.left wo).left (within_of_checkBlock hb)
      have body := checkBlock_rename statements hb (last.left wo).right named.left.right.child
      refine gives_bind.2 ⟨_, _, gives_checkCase.2 ⟨_, ?_, body⟩, others⟩
      have same : (Node.renameAll r rest).isEmpty = rest.isEmpty := by cases rest <;> rfl
      rw [same]
      rcases hv with ⟨rfl, only, rfl⟩ | ⟨given, more, v, hv, fits⟩
      · exact .inl ⟨rfl, only, rfl⟩
      · rw [← Node.isAbsent_rename (r := r)] at given
        have typed := checkExpression_rename named.told value hv here
        exact .inr ⟨given, more, v, typed, fits⟩
    | _ => nomatch case_of_gives hb
end

end

end PlcLang
