import PlcLang.Proofs.Arrays
import PlcLang.Proofs.Checking.Expression
import PlcLang.Proofs.Renaming.Tree

namespace PlcLang

open Checking Annotations

/-- What sort of fault it is: an error of a class, whatever its message names and its node, or a
fault that names nothing. -/
def Fault.kind : Fault → ErrorClass ⊕ Fault
  | .problem p => .inl p.cause.errorClass
  | f => .inr f

/-- Two computations come to related results, or have faults of one kind. -/
inductive Concur {α β : Type} (R : α → β → Prop) : Except Fault α → Except Fault β → Prop where
  | ok {a : α} {b : β} (same : R a b) : Concur R (.ok a) (.ok b)
  | error {f g : Fault} (same : f.kind = g.kind) : Concur R (.error f) (.error g)

namespace Concur

variable {α β γ δ : Type} {R : α → β → Prop} {S : γ → δ → Prop}

theorem refl (x : Except Fault α) : Concur Eq x x := by
  cases x with
  | error f => exact .error rfl
  | ok a => exact .ok rfl

theorem of_eq {x y : Except Fault α} (h : x = y) : Concur Eq x y :=
  h ▸ refl x

theorem bind {x : Except Fault α} {y : Except Fault β} {k : α → Except Fault γ}
    {k' : β → Except Fault δ} (h : Concur R x y) (hk : ∀ a b, R a b → Concur S (k a) (k' b)) :
    Concur S (x >>= k) (y >>= k') := by
  cases h with
  | ok same => exact hk _ _ same
  | error same => exact .error same

theorem map {x : Except Fault α} {y : Except Fault β} {g : α → γ} {g' : β → δ} (h : Concur R x y)
    (hg : ∀ a b, R a b → S (g a) (g' b)) : Concur S (x.map g) (y.map g') := by
  cases h with
  | ok same => exact .ok (hg _ _ same)
  | error same => exact .error same

/-- The second computation succeeds if the first does. -/
theorem succeeds {x : Except Fault α} {y : Except Fault β} {a : α} (h : Concur R x y)
    (hx : x = .ok a) : ∃ b, y = .ok b ∧ R a b := by
  subst hx
  cases h with
  | ok same => exact ⟨_, rfl, same⟩

theorem eq_ok {x y : Except Fault α} {a : α} (h : Concur Eq x y) (hx : x = .ok a) : y = .ok a := by
  obtain ⟨_, hy, rfl⟩ := h.succeeds hx
  exact hy

end Concur

/-! Rules that show a node only in their faults. -/

theorem requireAssignable_concur (target source : Ty) (subject subject' : Node Label) :
    Concur Eq (requireAssignable target source subject)
      (requireAssignable target source subject') := by
  unfold requireAssignable
  split
  · exact .ok rfl
  · exact .error rfl

theorem resolveType_concur (name : Json) (subject subject' : Node Label) :
    Concur Eq (resolveType name subject) (resolveType name subject') := by
  refine (Concur.refl name.key).bind fun _ _ _ => ?_
  cases Ty.ofJson? name with
  | none => exact .error rfl
  | some t => exact .ok rfl

theorem numericType_concur (op : Operator) (left right left' right' : Node Label) (l r : Ty) :
    Concur Eq (numericType op left right l r) (numericType op left' right' l r) := by
  unfold numericType
  split
  · refine (requireAssignable_concur l r right right').bind fun _ _ _ => .refl _
  · exact .error rfl

theorem binaryType_concur (op : Operator) (left right node left' right' node' : Node Label)
    (l r : Ty) :
    Concur Eq (binaryType op left right node l r) (binaryType op left' right' node' l r) := by
  have assignable := requireAssignable_concur
  cases op with
  | and | or | power =>
    exact (assignable _ l left left').bind fun _ _ _ =>
      (assignable _ r right right').bind fun _ _ _ => .refl _
  | less | greater | equal | unequal =>
    refine (assignable _ l left left').bind fun _ _ _ =>
      (assignable _ r right right').bind fun _ _ _ => ?_
    split
    · exact .ok rfl
    · exact .error rfl
  | plus =>
    simp only [binaryType]
    split
    · exact .ok rfl
    · exact numericType_concur _ left right left' right' l r
  | minus | times | divide => exact numericType_concur _ left right left' right' l r
  | other text => exact .error rfl

/-- What is known of a variable, with the other name. -/
def Binding.rename (r : Renaming) (b : Binding) : Binding :=
  { b with name := r.declared b.id.label }

def Annotation.rename (r : Renaming) (a : Annotation) : Annotation :=
  { a with binding := a.binding.map (Binding.rename r) }

def Annotations.rename (r : Renaming) (found : Annotations) : Annotations :=
  found.map fun a => a.rename r

def StaticBlock.rename (r : Renaming) (S : StaticBlock) : StaticBlock :=
  { S with vars := S.vars.map fun (_, b) => (.text (r.name b.id.label), b.rename r) }

/-- The names in scope with the other names of the variables. -/
def Context.rename (r : Renaming) (Γ : Context) : Context :=
  ⟨Γ.inner.rename r, Γ.outer.map (StaticBlock.rename r)⟩

/-- All variables in scope, also those that a nearer one hides. -/
def Context.variables (Γ : Context) : List Binding :=
  Γ.blocks.flatMap fun block => block.vars.map (·.2)

/-- The other names tell the variables in scope apart. -/
def Context.Told (r : Renaming) (Γ : Context) : Prop :=
  ∀ b ∈ Γ.variables, ∀ c ∈ Γ.variables, r.name b.id.label = r.name c.id.label → b = c

namespace Annotations

variable {r : Renaming} {σ : Annotations} {label : Label}

theorem of_rename : (σ.rename r).of label = (σ.of label).rename r := by
  simp only [of, rename, Array.getElem?_map]
  cases σ[label]? <;> rfl

theorem rename_modify {change change' : Annotation → Annotation}
    (h : ∀ a, (change a).rename r = change' (a.rename r)) :
    rename r (σ.modify label change) = (σ.rename r).modify label change' :=
  map_modify h σ label

theorem rename_type {t : Option Ty} :
    rename r (σ.modify label fun a => { a with type := t }) =
      (σ.rename r).modify label fun a => { a with type := t } :=
  rename_modify fun _ => rfl

theorem rename_binding {b : Binding} :
    rename r (σ.modify label fun a => { a with binding := some b }) =
      (σ.rename r).modify label fun a => { a with binding := some (b.rename r) } :=
  rename_modify fun _ => rfl

theorem rename_signature {f : Option Signature} :
    rename r (σ.modify label fun a => { a with signature := f }) =
      (σ.rename r).modify label fun a => { a with signature := f } :=
  rename_modify fun _ => rfl

theorem rename_access {b : Binding} :
    rename r (σ.modify label fun a => { a with binding := some b, type := some b.type }) =
      (σ.rename r).modify label fun a =>
        { a with binding := some (b.rename r), type := some (b.rename r).type } :=
  rename_modify fun _ => rfl

theorem rename_call {f : Signature} :
    rename r (σ.modify label fun a => { a with signature := some f, type := some f.returns }) =
      (σ.rename r).modify label fun a =>
        { a with signature := some f, type := some f.returns } :=
  rename_modify fun _ => rfl

end Annotations

namespace Context

variable {r : Renaming} {Γ : Context} {key : Key} {b : Binding}

theorem blocks_rename : (Γ.rename r).blocks = Γ.blocks.map (StaticBlock.rename r) := rfl

theorem findFunction_rename (key : Key) (arity : Nat) :
    (Γ.rename r).findFunction key arity = Γ.findFunction key arity := by
  unfold findFunction
  rw [blocks_rename, List.findSome?_map]
  rfl

theorem mem_variables_of_find (h : Γ.findVariable key = some b) : b ∈ Γ.variables := by
  obtain ⟨block, mem, found⟩ := List.exists_of_findSome?_eq_some h
  obtain ⟨before, _, here, _⟩ := List.lookup_eq_some_iff.1 found
  refine List.mem_flatMap.2 ⟨block, mem, List.mem_map.2 ⟨(key, b), ?_, rfl⟩⟩
  rw [here]
  simp

/-- In a block, the other name stands for the first variable that it is given to. -/
theorem lookup_rename (vars : Table Key Binding) (name : String) :
    (vars.map fun (_, b) => (Key.text (r.name b.id.label), b.rename r)).lookup (.text name) =
      ((vars.map (·.2)).find? (fun b => r.name b.id.label == name)).map (Binding.rename r) := by
  induction vars with
  | nil => rfl
  | cons entry rest ih =>
    obtain ⟨k, b⟩ := entry
    simp only [List.map_cons, List.lookup_cons, List.find?_cons, ih]
    by_cases same : r.name b.id.label = name
    · simp [same]
    · have other : (Key.text name == Key.text (r.name b.id.label)) = false := by
        simpa using Ne.symm same
      have other' : (r.name b.id.label == name) = false := by simpa using same
      rw [other, other']

theorem findVariable_rename (name : String) :
    (Γ.rename r).findVariable (.text name) =
      (Γ.variables.find? (fun b => r.name b.id.label == name)).map (Binding.rename r) := by
  rw [findVariable, Context.variables]
  rw [blocks_rename, List.findSome?_map, List.find?_flatMap]
  generalize Γ.blocks = blocks
  induction blocks with
  | nil => rfl
  | cons block rest ih =>
    simp only [List.findSome?_cons, Function.comp_apply, StaticBlock.rename, lookup_rename, ih]
    cases (block.vars.map (·.2)).find? (fun b => r.name b.id.label == name) <;> rfl

/-- Under its other name a variable is found where it was found under its own. -/
theorem find_told (told : Γ.Told r) (h : Γ.findVariable key = some b) :
    (Γ.rename r).findVariable (.text (r.name b.id.label)) = some (b.rename r) := by
  have mem := mem_variables_of_find h
  rw [findVariable_rename]
  cases found : Γ.variables.find? (fun c => r.name c.id.label == r.name b.id.label) with
  | none => exact (List.find?_eq_none.1 found b mem (by simp)).elim
  | some c =>
    have same := List.find?_some found
    rw [told c (List.mem_of_find?_eq_some found) b mem (by simpa using same)]
    rfl

end Context

section

variable {r : Renaming} {Γ : Context}

mutual
/-- An expression with the other names has the same type, and what is found of it is what was found
before, with the other names. -/
theorem checkExpression_rename (told : Γ.Told r) (e : Node Label) {t : Ty} {σ σ' : Annotations}
    (h : (e.checkExpression Γ).Gives σ t σ') (last : Lasts r.found σ' e.labels) :
    ((e.rename r).checkExpression (Γ.rename r)).Gives (σ.rename r) t (σ'.rename r) := by
  match e with
  | .literal label value =>
    obtain ⟨ht, rfl⟩ := gives_literal.1 h
    exact gives_literal.2 ⟨ht, rename_type.symm⟩
  | .group label inner =>
    obtain ⟨binary, _, hi, rfl⟩ := gives_group.1 h
    have inside := checkExpression_rename told inner hi last.tail
    exact gives_group.2 ⟨by rwa [Node.isBinary_rename], _, inside, rename_type.symm⟩
  | .binary label op left right =>
    obtain ⟨l, u, _, _, hl, hu, ht, rfl⟩ := gives_binary.1 h
    have first := checkExpression_rename told left hl (last.tail.left (within_of_check hu))
    have second := checkExpression_rename told right hu last.tail.right
    have fits := (binaryType_concur op left right (.binary label op left right) (left.rename r)
      (right.rename r) (.binary label op (left.rename r) (right.rename r)) l u).eq_ok ht
    exact gives_binary.2 ⟨l, u, _, _, first, second, fits, rename_type.symm⟩
  | .access label name offset =>
    -- What was found of the node says which variable its other name is to stand for.
    have accessed {τ : Annotations} {b : Binding}
        (last : Lasts r.found (τ.modify label fun a =>
          { a with binding := some b, type := some b.type }) (label :: offset.labels)) :
        (r.accessed label name).key? = some (.text (r.name b.id.label)) := by
      have bound : (r.found.of label).binding = some b := by rw [last.head]
      rw [Renaming.accessed, bound]
      rfl
    cases given : offset.isAbsent with
    | true =>
      obtain rfl := isAbsent_iff.1 given
      obtain ⟨_, b, _, hb, rfl, rfl⟩ := gives_access.1 h
      exact gives_access.2 ⟨_, b.rename r, accessed last, Context.find_told told hb, rfl,
        rename_access.symm⟩
    | false =>
      obtain ⟨_, b, _, ho, _, hb, rfl, rfl⟩ := (gives_element given).1 h
      have index := checkExpression_rename told offset ho last.tail
      rw [← Node.isAbsent_rename (r := r)] at given
      exact (gives_element given).2 ⟨_, b.rename r, _, index, accessed last,
        Context.find_told told hb, rfl, rename_access.symm⟩
  | .call label name arguments =>
    cases arguments with
    | list arguments =>
      obtain ⟨key, f, _, hk, hf, ha, rfl, rfl⟩ := gives_call.1 h
      have given := checkArguments_rename told arguments f.parameters ha last.tail
      refine gives_call.2 ⟨key, f, _, hk, ?_, given, rfl, rename_call.symm⟩
      rwa [Context.findFunction_rename, Node.renameAll_eq, List.length_map]
    | _ => exact (gives_throw h).elim
  | .listLiteral label elements =>
    cases elements with
    | absent =>
      obtain ⟨rfl, rfl⟩ := gives_missing.1 h
      exact gives_missing.2 ⟨rfl, rename_type.symm⟩
    | list elements =>
      obtain ⟨_, he, rfl⟩ := gives_list.1 h
      have inside := checkElements_rename told elements he last.tail
      exact gives_list.2 ⟨_, inside, rename_type.symm⟩
    | _ => exact (gives_throw h).elim
  | .absent | .list _ | .source .. | .global .. | .parameter .. | .function .. | .expressionStmt _
  | .declaration .. | .assignment .. | .conditional .. | .case .. | .switch .. | .loop ..
  | .ret _ => exact (gives_throw h).elim

theorem checkArguments_rename (told : Γ.Told r) (arguments : List (Node Label))
    (parameters : List Ty) {u : Unit} {σ σ' : Annotations}
    (h : (Node.checkArguments Γ arguments parameters).Gives σ u σ')
    (last : Lasts r.found σ' (Node.allLabels arguments)) :
    (Node.checkArguments (Γ.rename r) (Node.renameAll r arguments) parameters).Gives (σ.rename r) u
      (σ'.rename r) := by
  match arguments, parameters with
  | [], [] | [], _ :: _ | _ :: _, [] =>
    obtain ⟨_, rfl⟩ := gives_pure.1 h
    exact gives_pure.2 ⟨rfl, rfl⟩
  | argument :: rest, p :: parameters =>
    obtain ⟨t, _, ht, hp, ho⟩ := gives_checkArguments_cons.1 h
    have w := within_of_checkArguments ho
    have first := checkExpression_rename told argument ht (last.left w)
    have others := checkArguments_rename told rest parameters ho last.right
    exact gives_checkArguments_cons.2 ⟨t, _, first, hp, others⟩

theorem checkElements_rename (told : Γ.Told r) (elements : List (Node Label)) {t : Ty}
    {σ σ' : Annotations} (h : (Node.checkElements Γ elements).Gives σ t σ')
    (last : Lasts r.found σ' (Node.allLabels elements)) :
    (Node.checkElements (Γ.rename r) (Node.renameAll r elements)).Gives (σ.rename r) t
      (σ'.rename r) := by
  match elements with
  | [] =>
    obtain ⟨rfl, rfl⟩ := gives_pure.1 h
    exact gives_pure.2 ⟨rfl, rfl⟩
  | first :: rest =>
    obtain ⟨_, _, hf, ho⟩ := gives_checkElements_cons.1 h
    have w := within_of_checkElements ho
    have here := checkExpression_rename told first hf (last.left w)
    have others := checkElements_rename told rest ho last.right
    exact gives_checkElements_cons.2 ⟨_, _, here, others⟩
end

end

end PlcLang
