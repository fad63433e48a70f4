import PlcLang.Proofs.Elaboration.Names
import PlcLang.Proofs.Elaboration.Types

namespace PlcLang

theorem LiteralHas.unique {value : Literal} {t u : Ty} (h : LiteralHas value t)
    (other : LiteralHas value u) : t = u := by
  cases h <;> cases other <;> rfl

theorem Applies.unique {op : Operator} {l r t u : Ty} (h : Applies op l r t)
    (other : Applies op l r u) : t = u := by
  have found : binaryType op .absent .absent .absent l r = .ok t := applies_iff.2 h
  exact Except.ok.inj (found.symm.trans (applies_iff.2 other))

theorem NamesType.unique {name : Json} {t u : Option Ty} (h : NamesType name t)
    (other : NamesType name u) : t = u := by
  have found : resolveOptional name .absent = .ok t := namesType_iff.2 h
  exact Except.ok.inj (found.symm.trans (namesType_iff.2 other))

theorem VariableType.unique {declared found : Option Ty} {t u : Ty}
    (h : VariableType declared found t) (other : VariableType declared found u) : t = u := by
  cases h <;> cases other <;> rfl

theorem Lexical.Declares.unique {d : Declaration} {Γ Γ₁ Γ₂ : Lexical} (h : Γ.Declares d Γ₁)
    (other : Γ.Declares d Γ₂) : Γ₁ = Γ₂ := by
  cases h
  cases other
  rfl

/-- There is a checker that knows what is declared. -/
theorem Lexical.Declares.known {d : Declaration} {C : Context} {Γ Γ' : Lexical}
    (h : Γ.Declares d Γ') (knows : C.Knows Γ) : ∃ C' : Context, C'.Knows Γ' := by
  cases d with
  | ofVariable key b =>
    obtain ⟨C', -, known⟩ := knows.adds h
    exact ⟨C', known⟩
  | ofFunction key f =>
    obtain ⟨C', -, known⟩ := knows.addsFunction h
    exact ⟨C', known⟩

section

variable {C : Context} {Γ : Lexical}

mutual
/-- The rules give an expression one type, and find one thing of each of its nodes. -/
theorem Infers.unique (knows : C.Knows Γ) {e : Node Label} {e₁ e₂ : Node Annotation} {t₁ t₂ : Ty}
    (h : Infers Γ e e₁ t₁) (other : Infers Γ e e₂ t₂) : e₁ = e₂ ∧ t₁ = t₂ := by
  match h with
  | .literal has =>
    cases other with
    | literal has' =>
      obtain rfl := has.unique has'
      exact ⟨rfl, rfl⟩
  | .group inside =>
    cases other with
    | group inside' =>
      obtain ⟨rfl, rfl⟩ := inside.unique knows inside'
      exact ⟨rfl, rfl⟩
  | .binary first second applies =>
    cases other with
    | binary first' second' applies' =>
      obtain ⟨rfl, rfl⟩ := first.unique knows first'
      obtain ⟨rfl, rfl⟩ := second.unique knows second'
      obtain rfl := applies.unique applies'
      exact ⟨rfl, rfl⟩
  | .access named found =>
    cases other with
    | access named' found' =>
      obtain rfl := Option.some.inj (named.symm.trans named')
      obtain rfl := knows.finds_unique found found'
      exact ⟨rfl, rfl⟩
    | element index => cases index
  | .element index named found =>
    cases other with
    | access => cases index
    | element index' named' found' =>
      obtain ⟨rfl, -⟩ := index.unique knows index'
      obtain rfl := Option.some.inj (named.symm.trans named')
      obtain rfl := knows.finds_unique found found'
      exact ⟨rfl, rfl⟩
  | .call named found given =>
    cases other with
    | call named' found' given' =>
      obtain rfl := Option.some.inj (named.symm.trans named')
      obtain rfl := knows.findsFunction_unique found found'
      obtain rfl := given.unique knows given'
      exact ⟨rfl, rfl⟩
  | .missing =>
    cases other with
    | missing => exact ⟨rfl, rfl⟩
  | .list inside =>
    cases other with
    | list inside' =>
      obtain ⟨rfl, rfl⟩ := inside.unique knows inside'
      exact ⟨rfl, rfl⟩

theorem InfersArguments.unique (knows : C.Knows Γ) {arguments : List (Node Label)}
    {es₁ es₂ : List (Node Annotation)} {parameters : List Ty}
    (h : InfersArguments Γ arguments es₁ parameters)
    (other : InfersArguments Γ arguments es₂ parameters) : es₁ = es₂ := by
  match h with
  | .nil =>
    cases other
    rfl
  | .cons first _ others =>
    cases other with
    | cons first' _ others' =>
      obtain ⟨rfl, -⟩ := first.unique knows first'
      obtain rfl := others.unique knows others'
      rfl

theorem InfersElements.unique (knows : C.Knows Γ) {elements : List (Node Label)}
    {es₁ es₂ : List (Node Annotation)} {t₁ t₂ : Ty} (h : InfersElements Γ elements es₁ t₁)
    (other : InfersElements Γ elements es₂ t₂) : es₁ = es₂ ∧ t₁ = t₂ := by
  match h with
  | .nil =>
    cases other
    exact ⟨rfl, rfl⟩
  | .cons first others =>
    cases other with
    | cons first' others' =>
      obtain ⟨rfl, rfl⟩ := first.unique knows first'
      obtain ⟨rfl, -⟩ := others.unique knows others'
      exact ⟨rfl, rfl⟩
end

theorem InfersOptional.unique (knows : C.Knows Γ) {value : Node Label} {e₁ e₂ : Node Annotation}
    {t₁ t₂ : Option Ty} (h : InfersOptional Γ value e₁ t₁)
    (other : InfersOptional Γ value e₂ t₂) : e₁ = e₂ ∧ t₁ = t₂ := by
  cases h with
  | leftOut =>
    cases other with
    | leftOut => exact ⟨rfl, rfl⟩
    | given typed => cases typed
  | given typed =>
    cases other with
    | leftOut => cases typed
    | given typed' =>
      obtain ⟨rfl, rfl⟩ := typed.unique knows typed'
      exact ⟨rfl, rfl⟩

end

section

variable {check : Nat} {returns : Ty}

theorem Elaborates.known {C : Context} {Γ Γ' : Lexical} {s : Node Label} {e : Node Annotation}
    (h : Elaborates check returns Γ s e Γ') (knows : C.Knows Γ) : ∃ C' : Context, C'.Knows Γ' := by
  cases h with
  | declaration _ _ _ _ declares => exact declares.known knows
  | _ => exact ⟨C, knows⟩

mutual
theorem Elaborates.unique {C : Context} {Γ Γ₁ Γ₂ : Lexical} {s : Node Label}
    {s₁ s₂ : Node Annotation} (knows : C.Knows Γ) (h : Elaborates check returns Γ s s₁ Γ₁)
    (other : Elaborates check returns Γ s s₂ Γ₂) : s₁ = s₂ ∧ Γ₁ = Γ₂ := by
  match h with
  | .call typed =>
    cases other with
    | call typed' =>
      obtain ⟨rfl, -⟩ := typed.unique knows typed'
      exact ⟨rfl, rfl⟩
  | .declaration names initial type named declares =>
    cases other with
    | declaration names' initial' type' named' declares' =>
      obtain rfl := names.unique names'
      obtain ⟨rfl, rfl⟩ := initial.unique knows initial'
      obtain rfl := type.unique type'
      obtain rfl := Option.some.inj (named.symm.trans named')
      exact ⟨rfl, declares.unique declares'⟩
  | .assignment target source _ =>
    cases other with
    | assignment target' source' _ =>
      obtain ⟨rfl, -⟩ := target.unique knows target'
      obtain ⟨rfl, -⟩ := source.unique knows source'
      exact ⟨rfl, rfl⟩
  | .conditional test chosen otherwise =>
    cases other with
    | conditional test' chosen' otherwise' =>
      obtain ⟨rfl, -⟩ := test.unique knows test'
      obtain ⟨rfl, -⟩ := chosen.unique knows.child chosen'
      obtain ⟨rfl, -⟩ := otherwise.unique knows.child otherwise'
      exact ⟨rfl, rfl⟩
  | .switch subject branches =>
    cases other with
    | switch subject' branches' =>
      obtain ⟨rfl, rfl⟩ := subject.unique knows subject'
      obtain rfl := branches.unique knows branches'
      exact ⟨rfl, rfl⟩
  | .loop test body =>
    cases other with
    | loop test' body' =>
      obtain ⟨rfl, -⟩ := test.unique knows test'
      obtain ⟨rfl, -⟩ := body.unique knows.child body'
      exact ⟨rfl, rfl⟩
  | .ret typed _ =>
    cases other with
    | ret typed' _ =>
      obtain ⟨rfl, -⟩ := typed.unique knows typed'
      exact ⟨rfl, rfl⟩

theorem ElaboratesAll.unique {C : Context} {Γ Γ₁ Γ₂ : Lexical} {statements : List (Node Label)}
    {es₁ es₂ : List (Node Annotation)} (knows : C.Knows Γ)
    (h : ElaboratesAll check returns Γ statements es₁ Γ₁)
    (other : ElaboratesAll check returns Γ statements es₂ Γ₂) : es₁ = es₂ ∧ Γ₁ = Γ₂ := by
  match h with
  | .nil =>
    cases other
    exact ⟨rfl, rfl⟩
  | .cons first others =>
    cases other with
    | cons first' others' =>
      obtain ⟨rfl, rfl⟩ := first.unique knows first'
      obtain ⟨_, known⟩ := first.known knows
      obtain ⟨rfl, rfl⟩ := others.unique known others'
      exact ⟨rfl, rfl⟩

theorem ElaboratesCases.unique {C : Context} {Γ : Lexical} {t : Ty} {cases : List (Node Label)}
    {es₁ es₂ : List (Node Annotation)} (knows : C.Knows Γ)
    (h : ElaboratesCases check returns Γ t cases es₁)
    (other : ElaboratesCases check returns Γ t cases es₂) : es₁ = es₂ := by
  match h with
  | .default body =>
    cases other with
    | default body' =>
      obtain ⟨rfl, -⟩ := body.unique knows.child body'
      rfl
  | .branch typed _ body more =>
    cases other with
    | branch typed' _ body' more' =>
      obtain ⟨rfl, -⟩ := typed.unique knows typed'
      obtain ⟨rfl, -⟩ := body.unique knows.child body'
      obtain rfl := more.unique knows more'
      rfl
end

theorem ElaboratesParameters.known {C : Context} {Γ Γ' : Lexical} {parameters : List (Node Label)}
    {es : List (Node Annotation)} {types : List Ty}
    (h : ElaboratesParameters check Γ parameters es types Γ') (knows : C.Knows Γ) :
    ∃ C' : Context, C'.Knows Γ' := by
  induction h generalizing C with
  | nil => exact ⟨C, knows⟩
  | cons _ _ _ declares _ ih =>
    obtain ⟨_, known⟩ := declares.known knows
    exact ih known

/-- What is declared around a function does not count for the types of its parameters. -/
theorem ElaboratesParameters.types_unique {Γ₁ Γ₂ Γ₁' Γ₂' : Lexical}
    {parameters : List (Node Label)} {es₁ es₂ : List (Node Annotation)} {types₁ types₂ : List Ty}
    (h : ElaboratesParameters check Γ₁ parameters es₁ types₁ Γ₁')
    (other : ElaboratesParameters check Γ₂ parameters es₂ types₂ Γ₂') : types₁ = types₂ := by
  induction h generalizing Γ₂ es₂ types₂ with
  | nil =>
    cases other
    rfl
  | cons isParameter typed _ _ _ ih =>
    cases other with
    | cons isParameter' typed' _ _ others' =>
      obtain rfl := Option.some.inj (isParameter.symm.trans isParameter')
      have found : resolveType _ .absent = .ok _ := resolveType_ok.2 typed
      have same := Except.ok.inj (found.symm.trans (resolveType_ok.2 typed'))
      rw [same, ih others']

theorem ElaboratesParameters.unique {Γ Γ₁ Γ₂ : Lexical} {parameters : List (Node Label)}
    {es₁ es₂ : List (Node Annotation)} {types : List Ty}
    (h : ElaboratesParameters check Γ parameters es₁ types Γ₁)
    (other : ElaboratesParameters check Γ parameters es₂ types Γ₂) :
    es₁ = es₂ ∧ Γ₁ = Γ₂ := by
  induction h generalizing es₂ with
  | nil =>
    cases other
    exact ⟨rfl, rfl⟩
  | cons isParameter _ named declares _ ih =>
    cases other with
    | cons isParameter' _ named' declares' others' =>
      obtain rfl := Option.some.inj (isParameter.symm.trans isParameter')
      obtain rfl := Option.some.inj (named.symm.trans named')
      obtain rfl := declares.unique declares'
      obtain ⟨rfl, rfl⟩ := ih others'
      exact ⟨rfl, rfl⟩

theorem ElaboratesFunction.unique {C : Context} {Γ Γ₁ Γ₂ : Lexical} {f : Node Label}
    {e₁ e₂ : Node Annotation} (knows : C.Knows Γ) (h : ElaboratesFunction check Γ f e₁ Γ₁)
    (other : ElaboratesFunction check Γ f e₂ Γ₂) : e₁ = e₂ ∧ Γ₁ = Γ₂ := by
  obtain ⟨named, names, declares, takes, body⟩ := h
  cases other with
  | intro named' names' declares' takes' body' =>
    obtain rfl := Option.some.inj (named.symm.trans named')
    obtain rfl := names.unique names'
    obtain rfl := takes.types_unique takes'
    obtain rfl := declares.unique declares'
    obtain ⟨rfl, rfl⟩ := takes.unique takes'
    obtain ⟨_, known⟩ := declares.known knows
    obtain ⟨_, inner⟩ := takes.known known.child
    obtain ⟨rfl, -⟩ := body.unique inner body'
    exact ⟨rfl, rfl⟩

theorem ElaboratesFunction.known {C : Context} {Γ Γ' : Lexical} {f : Node Label}
    {e : Node Annotation} (h : ElaboratesFunction check Γ f e Γ') (knows : C.Knows Γ) :
    ∃ C' : Context, C'.Knows Γ' := by
  obtain ⟨_, _, declares, _, _⟩ := h
  exact declares.known knows

theorem ElaboratesFunctions.unique {C : Context} {Γ Γ₁ Γ₂ : Lexical}
    {functions : List (Node Label)} {es₁ es₂ : List (Node Annotation)} (knows : C.Knows Γ)
    (h : ElaboratesFunctions check Γ functions es₁ Γ₁)
    (other : ElaboratesFunctions check Γ functions es₂ Γ₂) : es₁ = es₂ := by
  induction h generalizing C es₂ with
  | nil =>
    cases other
    rfl
  | cons first _ ih =>
    cases other with
    | cons first' others' =>
      obtain ⟨rfl, rfl⟩ := first.unique knows first'
      obtain ⟨_, known⟩ := first.known knows
      obtain rfl := ih known others'
      rfl

theorem ElaboratesGlobals.known {C : Context} {Γ Γ' : Lexical} {globals : List (Node Label)}
    {es : List (Node Annotation)} (h : ElaboratesGlobals check Γ globals es Γ')
    (knows : C.Knows Γ) : ∃ C' : Context, C'.Knows Γ' := by
  induction h generalizing C with
  | nil => exact ⟨C, knows⟩
  | cons _ _ _ _ declares _ ih =>
    obtain ⟨_, known⟩ := declares.known knows
    exact ih known

theorem ElaboratesGlobals.unique {C : Context} {Γ Γ₁ Γ₂ : Lexical} {globals : List (Node Label)}
    {es₁ es₂ : List (Node Annotation)} (knows : C.Knows Γ)
    (h : ElaboratesGlobals check Γ globals es₁ Γ₁)
    (other : ElaboratesGlobals check Γ globals es₂ Γ₂) : es₁ = es₂ ∧ Γ₁ = Γ₂ := by
  induction h generalizing C es₂ with
  | nil =>
    cases other
    exact ⟨rfl, rfl⟩
  | cons names initial type named declares _ ih =>
    cases other with
    | cons names' initial' type' named' declares' others' =>
      obtain rfl := names.unique names'
      obtain ⟨rfl, rfl⟩ := initial.unique knows initial'
      obtain rfl := type.unique type'
      obtain rfl := Option.some.inj (named.symm.trans named')
      obtain rfl := declares.unique declares'
      obtain ⟨_, known⟩ := declares.known knows
      obtain ⟨rfl, rfl⟩ := ih known others'
      exact ⟨rfl, rfl⟩

/-- The rules find one thing of each node of a program. -/
theorem ElaboratesProgram.unique {tree : Node Label} {e₁ e₂ : Node Annotation}
    (h : ElaboratesProgram check tree e₁) (other : ElaboratesProgram check tree e₂) :
    e₁ = e₂ := by
  obtain ⟨first, others, _, _⟩ := h
  cases other with
  | intro first' others' _ _ =>
    obtain ⟨rfl, rfl⟩ := first.unique .standard first'
    obtain ⟨_, known⟩ := first.known .standard
    obtain rfl := others.unique known others'
    rfl

end

end PlcLang
