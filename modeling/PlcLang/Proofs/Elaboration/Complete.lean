import PlcLang.Proofs.Elaboration.Names
import PlcLang.Proofs.Elaboration.Types

namespace PlcLang

open Checking

section

variable {C : Context} {Γ : Lexical}

theorem Infers.given {e : Node Label} {e' : Node Annotation} {t : Ty} (h : Infers Γ e e' t) :
    e.isAbsent = false := by
  cases h <;> rfl

mutual
/-- The checker accepts a well-typed expression, and finds its type. -/
theorem Infers.checks (knows : C.Knows Γ) {e : Node Label} {e' : Node Annotation} {t : Ty}
    (h : Infers Γ e e' t) (σ : Annotations) : ∃ σ', (e.checkExpression C).Gives σ t σ' := by
  match h with
  | .literal has => exact ⟨_, gives_literal.2 ⟨literalHas_iff.2 has, rfl⟩⟩
  | .group inside =>
    obtain ⟨τ, hi⟩ := inside.checks knows σ
    exact ⟨_, gives_group.2 ⟨rfl, τ, hi, rfl⟩⟩
  | .binary first second applies =>
    obtain ⟨τ, hl⟩ := first.checks knows σ
    obtain ⟨τ', hr⟩ := second.checks knows τ
    exact ⟨_, gives_binary.2 ⟨_, _, τ, τ', hl, hr, applies_iff.2 applies, rfl⟩⟩
  | .access named found =>
    exact ⟨_, gives_access.2 ⟨_, _, named, knows.finds_iff.2 found, rfl, rfl⟩⟩
  | .element index named found =>
    obtain ⟨τ, hi⟩ := index.checks knows σ
    have inScope := knows.finds_iff.2 found
    exact ⟨_, (gives_element index.given).2 ⟨_, _, τ, hi, named, inScope, rfl, rfl⟩⟩
  | .call named found given =>
    obtain ⟨τ, ha⟩ := given.checks knows σ
    exact ⟨_, gives_call.2 ⟨_, _, τ, named, knows.findsFunction_iff.2 found, ha, rfl, rfl⟩⟩
  | .missing => exact ⟨_, gives_missing.2 ⟨rfl, rfl⟩⟩
  | .list inside =>
    obtain ⟨τ, he⟩ := inside.checks knows σ
    exact ⟨_, gives_list.2 ⟨τ, he, rfl⟩⟩

theorem InfersArguments.checks (knows : C.Knows Γ) {arguments : List (Node Label)}
    {es : List (Node Annotation)} {parameters : List Ty}
    (h : InfersArguments Γ arguments es parameters) (σ : Annotations) :
    ∃ σ', (Node.checkArguments C arguments parameters).Gives σ () σ' := by
  match h with
  | .nil => exact ⟨σ, gives_pure.2 ⟨rfl, rfl⟩⟩
  | .cons first fits others =>
    obtain ⟨τ, hf⟩ := first.checks knows σ
    obtain ⟨σ', ho⟩ := others.checks knows τ
    exact ⟨σ', gives_checkArguments_cons.2 ⟨_, τ, hf, assignable_iff.1 fits, ho⟩⟩

theorem InfersElements.checks (knows : C.Knows Γ) {elements : List (Node Label)}
    {es : List (Node Annotation)} {t : Ty} (h : InfersElements Γ elements es t)
    (σ : Annotations) : ∃ σ', (Node.checkElements C elements).Gives σ t σ' := by
  match h with
  | .nil => exact ⟨σ, gives_pure.2 ⟨rfl, rfl⟩⟩
  | .cons first others =>
    obtain ⟨τ, hf⟩ := first.checks knows σ
    obtain ⟨σ', ho⟩ := others.checks knows τ
    exact ⟨σ', gives_checkElements_cons.2 ⟨_, τ, hf, ho⟩⟩
end

theorem InfersOptional.checks (knows : C.Knows Γ) {value : Node Label} {e : Node Annotation}
    {t : Option Ty} (h : InfersOptional Γ value e t) (σ : Annotations) :
    ∃ σ', (value.checkOptional C).Gives σ t σ' := by
  cases h with
  | leftOut => exact ⟨σ, gives_checkOptional.2 (.inl ⟨rfl, rfl, rfl⟩)⟩
  | given typed =>
    obtain ⟨σ', hv⟩ := typed.checks knows σ
    exact ⟨σ', gives_checkOptional.2 (.inr ⟨typed.given, _, hv, rfl⟩)⟩

end

section

variable {check : Nat} {returns : Ty}

theorem ElaboratesCases.nonempty {Γ : Lexical} {t : Ty} {cases : List (Node Label)}
    {es : List (Node Annotation)} (h : ElaboratesCases check returns Γ t cases es) :
    cases ≠ [] := by
  cases h <;> simp

mutual
/-- The checker accepts a well-typed statement, and knows the names behind it. -/
theorem Elaborates.checks {C : Context} {Γ Γ' : Lexical} {s : Node Label} {s' : Node Annotation}
    (knows : C.Knows Γ) (h : Elaborates check returns Γ s s' Γ') (σ : Annotations) :
    ∃ C' σ', (s.checkStatement check returns C).Gives σ C' σ' ∧ C'.Knows Γ' := by
  match h with
  | .call typed =>
    obtain ⟨σ', he⟩ := typed.checks knows σ
    exact ⟨C, σ', gives_expressionStmt.2 ⟨_, rfl, he, rfl⟩, knows⟩
  | .declaration names initial type named declares =>
    obtain ⟨τ, hv⟩ := initial.checks knows σ
    obtain ⟨C', added, knows'⟩ := knows.adds declares
    exact ⟨C', _, gives_declaration.2 ⟨_, _, _, τ, hv, namesType_iff.2 names,
      variableType_iff.2 type, gives_declare.2 ⟨_, named, added, rfl⟩⟩, knows'⟩
  | .assignment target source fits =>
    obtain ⟨τ, ht⟩ := target.checks knows σ
    obtain ⟨σ', hu⟩ := source.checks knows τ
    have fits := assignable_iff.1 fits
    exact ⟨C, σ', gives_assignment.2 ⟨_, _, τ, rfl, ht, hu, fits, rfl⟩, knows⟩
  | .conditional test chosen otherwise =>
    obtain ⟨τ, hc⟩ := test.checks knows σ
    obtain ⟨_, τ', ht, -⟩ := chosen.checks knows.child τ
    obtain ⟨_, σ', he, -⟩ := otherwise.checks knows.child τ'
    have chosen := gives_checkBlock.2 ⟨_, ht⟩
    have otherwise := gives_checkBlock.2 ⟨_, he⟩
    exact ⟨C, σ', gives_conditional.2 ⟨τ, τ', hc, rfl, chosen, otherwise, rfl⟩, knows⟩
  | .switch subject branches =>
    obtain ⟨τ, hc⟩ := subject.checks knows σ
    obtain ⟨σ', hb⟩ := branches.checks knows τ
    have nonempty := branches.nonempty
    exact ⟨C, σ', gives_switch.2 ⟨_, τ, hc, by simpa [Node.isEmpty] using nonempty, hb, rfl⟩, knows⟩
  | .loop test body =>
    obtain ⟨τ, hc⟩ := test.checks knows σ
    obtain ⟨_, σ', hb, -⟩ := body.checks knows.child τ
    exact ⟨C, σ', gives_loop.2 ⟨τ, hc, gives_checkBlock.2 ⟨_, hb⟩, rfl⟩, knows⟩
  | .ret typed fits =>
    obtain ⟨σ', ht⟩ := typed.checks knows σ
    exact ⟨C, σ', gives_ret.2 ⟨_, ht, assignable_iff.1 fits, rfl⟩, knows⟩

theorem ElaboratesAll.checks {C : Context} {Γ Γ' : Lexical} {statements : List (Node Label)}
    {es : List (Node Annotation)} (knows : C.Knows Γ)
    (h : ElaboratesAll check returns Γ statements es Γ') (σ : Annotations) :
    ∃ C' σ', (Node.checkStatements check returns C statements).Gives σ C' σ' ∧ C'.Knows Γ' := by
  match h with
  | .nil => exact ⟨C, σ, gives_pure.2 ⟨rfl, rfl⟩, knows⟩
  | .cons first others =>
    obtain ⟨C₁, τ, hs, knows⟩ := first.checks knows σ
    obtain ⟨C', σ', ho, knows⟩ := others.checks knows τ
    exact ⟨C', σ', gives_bind.2 ⟨C₁, τ, hs, ho⟩, knows⟩

theorem ElaboratesCases.checks {C : Context} {Γ : Lexical} {t : Ty} {cases : List (Node Label)}
    {es : List (Node Annotation)} (knows : C.Knows Γ)
    (h : ElaboratesCases check returns Γ t cases es) (σ : Annotations) :
    ∃ σ', (Node.checkEachCase check returns C t cases).Gives σ () σ' := by
  match h with
  | .default body =>
    obtain ⟨_, σ', hb, -⟩ := body.checks knows.child σ
    have body := gives_checkBlock.2 ⟨_, hb⟩
    refine ⟨σ', gives_bind.2 ⟨(), σ', ?_, gives_pure.2 ⟨rfl, rfl⟩⟩⟩
    exact gives_checkCase.2 ⟨σ, .inl ⟨rfl, rfl, rfl⟩, body⟩
  | .branch typed fits body more =>
    obtain ⟨τ, hv⟩ := typed.checks knows σ
    obtain ⟨_, τ', hb, -⟩ := body.checks knows.child τ
    obtain ⟨σ', ho⟩ := more.checks knows τ'
    have body := gives_checkBlock.2 ⟨_, hb⟩
    refine ⟨σ', gives_bind.2 ⟨(), τ', ?_, ho⟩⟩
    exact gives_checkCase.2 ⟨τ, .inr ⟨typed.given, rfl, _, hv, assignable_iff.1 fits⟩, body⟩
end

theorem ElaboratesParameters.checks {C : Context} {Γ Γ' : Lexical}
    {parameters : List (Node Label)} {es : List (Node Annotation)} {types : List Ty}
    (knows : C.Knows Γ) (h : ElaboratesParameters check Γ parameters es types Γ')
    (function : Node Label) :
    ∃ header, function.headerTypes parameters = .ok header ∧ header.map (·.2) = types ∧
      ∀ σ, ∃ C' σ', (function.checkParameters check C header).Gives σ C' σ' ∧ C'.Knows Γ' := by
  induction h generalizing C with
  | nil => exact ⟨[], rfl, rfl, fun σ => ⟨C, σ, gives_pure.2 ⟨rfl, rfl⟩, knows⟩⟩
  | cons isParameter typed named declares _ ih =>
    rename_i d rest _ t _ _ _
    obtain ⟨C₁, added, knows⟩ := knows.adds declares
    obtain ⟨header, headed, same, checked⟩ := ih knows
    refine ⟨(d, t) :: header, headerTypes_cons.2 ⟨d, t, header, isParameter, ?_⟩,
      congrArg (List.cons t) same, fun σ => ?_⟩
    · exact ⟨resolveType_ok.2 typed, headed, rfl⟩
    · obtain ⟨C', σ', ho, knows⟩ := checked _
      exact ⟨C', σ', gives_bind.2 ⟨C₁, _, gives_declare.2 ⟨_, named, added, rfl⟩, ho⟩, knows⟩

theorem ElaboratesFunction.checks {C : Context} {Γ Γ' : Lexical} {f : Node Label}
    {e : Node Annotation} (knows : C.Knows Γ) (h : ElaboratesFunction check Γ f e Γ')
    (σ : Annotations) : ∃ C' σ', (f.checkFunction check C).Gives σ C' σ' ∧ C'.Knows Γ' := by
  obtain ⟨named, names, declares, takes, body⟩ := h
  rename_i label name returnTypeName parameters statements _ _ types returns key
  obtain ⟨C', added, knows⟩ := knows.addsFunction declares
  obtain ⟨header, headed, rfl, checked⟩ := takes.checks knows.child
    (.function label name (.list parameters) returnTypeName (.list statements))
  let s : Signature := ⟨some ⟨check, label⟩, name, header.map (·.2), returns.getD .nil⟩
  obtain ⟨inside, τ, hp, inner⟩ := checked (σ.modify label fun a => { a with signature := some s })
  obtain ⟨_, σ', hb, -⟩ := body.checks inner τ
  exact ⟨C', σ', (gives_checkFunction rfl).2 ⟨header, _, inside, _, τ, headed,
    namesType_iff.2 names, gives_declareFunction.2 ⟨_, named, added, rfl⟩, hp,
    gives_checkBlock.2 ⟨_, hb⟩⟩, knows⟩

theorem ElaboratesGlobals.checks {C : Context} {Γ Γ' : Lexical} {globals : List (Node Label)}
    {es : List (Node Annotation)} (knows : C.Knows Γ)
    (h : ElaboratesGlobals check Γ globals es Γ') (σ : Annotations) :
    ∃ C' σ', (Node.checkGlobals check C globals).Gives σ C' σ' ∧ C'.Knows Γ' := by
  induction h generalizing C σ with
  | nil => exact ⟨C, σ, gives_pure.2 ⟨rfl, rfl⟩, knows⟩
  | cons names initial type named declares _ ih =>
    obtain ⟨τ, hv⟩ := initial.checks knows σ
    obtain ⟨C₁, added, knows⟩ := knows.adds declares
    obtain ⟨C', σ', ho, knows⟩ := ih knows _
    exact ⟨C', σ', gives_bind.2 ⟨C₁, _, gives_checkGlobal.2 ⟨_, _, _, τ, namesType_iff.2 names, hv,
      variableType_iff.2 type, gives_declare.2 ⟨_, named, added, rfl⟩⟩, ho⟩, knows⟩

theorem ElaboratesFunctions.checks {C : Context} {Γ Γ' : Lexical}
    {functions : List (Node Label)} {es : List (Node Annotation)} (knows : C.Knows Γ)
    (h : ElaboratesFunctions check Γ functions es Γ')
    (returns : ∀ f ∈ functions, ∀ r, f.IsMain r → r = .null ∨ r = .string "Integer")
    (σ : Annotations) : ∃ C' σ', ∃ isMain,
      (Node.checkFunctions check C functions).Gives σ (C', isMain) σ' ∧
        ((∃ f ∈ functions, ∃ r, f.IsMain r) → isMain = true) := by
  induction h generalizing C σ with
  | nil =>
    refine ⟨C, σ, false, gives_pure.2 ⟨rfl, rfl⟩, ?_⟩
    rintro ⟨f, mem, _⟩
    cases mem
  | cons first others ih =>
    rename_i f rest _ _
    obtain ⟨result, returns⟩ := List.forall_mem_cons.1 returns
    obtain ⟨C₁, τ, hf, knows⟩ := first.checks knows σ
    obtain ⟨C', σ', isMain, ho, later⟩ := ih knows returns τ
    -- The rules do not say how to find out whether a function is `main`.
    classical
    have hm := first.checkMain_ok.2 ⟨decide_eq_true_iff, result⟩
    refine ⟨C', σ', decide (∃ r, f.IsMain r) || isMain,
      gives_checkFunctions_cons.2 ⟨_, isMain, C₁, τ, hm, hf, ho, rfl⟩, ?_⟩
    rintro ⟨g, mem, starts⟩
    rcases List.mem_cons.1 mem with rfl | mem
    · simp [starts]
    · simp [later ⟨g, mem, starts⟩]

/-- The checker accepts a well-typed program. -/
theorem ElaboratesProgram.checks {tree : Node Label} {e : Node Annotation}
    (h : ElaboratesProgram check tree e) (σ : Annotations) :
    ∃ C σ', (tree.checkProgram check []).Gives σ C σ' := by
  obtain ⟨first, others, starts, returns⟩ := h
  obtain ⟨C, τ, hg, knows⟩ := first.checks .standard σ
  obtain ⟨C', σ', isMain, hf, found⟩ := others.checks knows returns τ
  obtain rfl := found starts
  exact ⟨C', σ', gives_checkProgram.2 ⟨_, _, C, τ, rfl, hg, hf⟩⟩

end

end PlcLang
