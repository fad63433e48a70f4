import PlcLang.Proofs.Elaboration.Rules
import PlcLang.Proofs.Tree.Parts

namespace PlcLang

/-- Whatever is to be found of a node of this kind has been found. -/
def Node.Complete : Node Annotation → Prop
  | .literal a _ | .group a _ | .binary a _ _ _ | .listLiteral a _ => a.type.isSome = true
  | .access a _ _ => a.type.isSome = true ∧ a.binding.isSome = true
  | .call a _ _ => a.type.isSome = true ∧ a.signature.isSome = true
  | .global a _ _ _ _ | .parameter a _ _ | .declaration a _ _ _ => a.binding.isSome = true
  | .function a _ _ _ _ => a.signature.isSome = true
  | _ => True

inductive Node.IsParameter {α : Type} : Node α → Prop where
  | intro {label : α} {name typeName : Json} : IsParameter (.parameter label name typeName)

/-- Nothing but a parameter stands for a parameter of a function. -/
def Node.TakesParameters {α : Type} : Node α → Prop
  | .function _ _ (.list parameters) _ _ => ∀ p ∈ parameters, p.IsParameter
  | _ => True

theorem Node.plain_mem {α : Type} {n : Node α} {ns : List (Node α)} (h : n ∈ ns) :
    n.plain ∈ Node.allPlain ns := by
  induction h with
  | head => exact List.mem_cons_self
  | tail _ _ ih => exact List.mem_cons_of_mem _ ih

theorem Node.TakesParameters.ofPlain {α : Type} {n : Node α} (h : n.plain.TakesParameters) :
    n.TakesParameters := by
  cases n with
  | function _ _ parameters =>
    cases parameters with
    | list parameters =>
      intro p mem
      have plain : p.plain.IsParameter := h p.plain (Node.plain_mem mem)
      cases p <;> first | constructor | cases plain
    | _ => trivial
  | _ => trivial

section

variable {Γ : Lexical}

mutual
theorem Infers.complete {e : Node Label} {e' : Node Annotation} {t : Ty} (h : Infers Γ e e' t) :
    e'.Every Node.Complete := by
  match h with
  | .literal _ => exact rfl
  | .group inside => exact ⟨rfl, inside.complete⟩
  | .binary first second _ => exact ⟨rfl, first.complete, second.complete⟩
  | .access _ _ => exact ⟨⟨rfl, rfl⟩, trivial⟩
  | .element index _ _ => exact ⟨⟨rfl, rfl⟩, index.complete⟩
  | .call _ _ given => exact ⟨⟨rfl, rfl⟩, trivial, given.complete⟩
  | .missing => exact ⟨rfl, trivial⟩
  | .list inside => exact ⟨rfl, trivial, inside.complete⟩

theorem InfersArguments.complete {arguments : List (Node Label)} {es : List (Node Annotation)}
    {parameters : List Ty} (h : InfersArguments Γ arguments es parameters) :
    Node.EveryOne Node.Complete es := by
  match h with
  | .nil => trivial
  | .cons first _ others => exact ⟨first.complete, others.complete⟩

theorem InfersElements.complete {elements : List (Node Label)} {es : List (Node Annotation)}
    {t : Ty} (h : InfersElements Γ elements es t) : Node.EveryOne Node.Complete es := by
  match h with
  | .nil => trivial
  | .cons first others => exact ⟨first.complete, others.complete⟩
end

theorem InfersOptional.complete {value : Node Label} {e : Node Annotation} {t : Option Ty}
    (h : InfersOptional Γ value e t) : e.Every Node.Complete := by
  cases h with
  | leftOut => trivial
  | given typed => exact typed.complete

end

section

variable {check : Nat} {returns : Ty}

mutual
theorem Elaborates.complete {Γ Γ' : Lexical} {s : Node Label} {e : Node Annotation}
    (h : Elaborates check returns Γ s e Γ') : e.Every Node.Complete := by
  match h with
  | .call typed => exact ⟨trivial, typed.complete⟩
  | .declaration _ initial _ _ _ => exact ⟨rfl, initial.complete⟩
  | .assignment target source _ => exact ⟨trivial, target.complete, source.complete⟩
  | .conditional test chosen otherwise =>
    exact ⟨trivial, test.complete, ⟨trivial, chosen.complete⟩, trivial, otherwise.complete⟩
  | .switch subject branches => exact ⟨trivial, subject.complete, trivial, branches.complete⟩
  | .loop test body => exact ⟨trivial, test.complete, trivial, body.complete⟩
  | .ret typed _ => exact ⟨trivial, typed.complete⟩

theorem ElaboratesAll.complete {Γ Γ' : Lexical} {statements : List (Node Label)}
    {es : List (Node Annotation)} (h : ElaboratesAll check returns Γ statements es Γ') :
    Node.EveryOne Node.Complete es := by
  match h with
  | .nil => trivial
  | .cons first others => exact ⟨first.complete, others.complete⟩

theorem ElaboratesCases.complete {Γ : Lexical} {t : Ty} {cases : List (Node Label)}
    {es : List (Node Annotation)} (h : ElaboratesCases check returns Γ t cases es) :
    Node.EveryOne Node.Complete es := by
  match h with
  | .default body => exact ⟨⟨trivial, trivial, trivial, body.complete⟩, trivial⟩
  | .branch typed _ body more =>
    exact ⟨⟨trivial, typed.complete, trivial, body.complete⟩, more.complete⟩
end

theorem ElaboratesParameters.complete {Γ Γ' : Lexical} {parameters : List (Node Label)}
    {es : List (Node Annotation)} {types : List Ty}
    (h : ElaboratesParameters check Γ parameters es types Γ')
    (only : ∀ p ∈ parameters, p.IsParameter) : Node.EveryOne Node.Complete es := by
  induction h with
  | nil => trivial
  | cons isParameter _ _ _ _ ih =>
    obtain ⟨here, only⟩ := List.forall_mem_cons.1 only
    refine ⟨?_, ih only⟩
    cases here
    cases isParameter
    simp [Node.map, Node.Every, Node.Complete]

theorem ElaboratesFunctions.complete {Γ Γ' : Lexical} {functions : List (Node Label)}
    {es : List (Node Annotation)} (h : ElaboratesFunctions check Γ functions es Γ')
    (only : Node.EveryOne Node.TakesParameters functions) : Node.EveryOne Node.Complete es := by
  induction h with
  | nil => trivial
  | cons first _ ih =>
    obtain ⟨here, only⟩ := only
    refine ⟨?_, ih only⟩
    obtain ⟨_, _, _, takes, body⟩ := first
    exact ⟨rfl, ⟨trivial, takes.complete here.1⟩, trivial, body.complete⟩

theorem ElaboratesGlobals.complete {Γ Γ' : Lexical} {globals : List (Node Label)}
    {es : List (Node Annotation)} (h : ElaboratesGlobals check Γ globals es Γ') :
    Node.EveryOne Node.Complete es := by
  induction h with
  | nil => trivial
  | cons _ initial _ _ _ _ ih => exact ⟨⟨rfl, initial.complete⟩, ih⟩

/-- The rules find all that there is to be found of a program. -/
theorem ElaboratesProgram.complete {tree : Node Label} {e : Node Annotation}
    (h : ElaboratesProgram check tree e) (only : tree.Every Node.TakesParameters) :
    e.Every Node.Complete := by
  obtain ⟨first, others, _, _⟩ := h
  exact ⟨trivial, ⟨trivial, first.complete⟩, trivial, others.complete only.2.2.2⟩

end

end PlcLang
