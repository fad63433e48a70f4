import PlcLang.Proofs.Checking.Found
import PlcLang.Proofs.Checking.Judgement
import PlcLang.Proofs.Tree.Labels

namespace PlcLang

open Checking Annotations

/-- Functions are known by how many parameters they have. -/
def Context.Regular (Γ : Context) : Prop :=
  ∀ block ∈ Γ.blocks, ∀ key arity f,
    block.functions.lookup (key, arity) = some f → f.parameters.length = arity

theorem Context.Regular.child {Γ : Context} (h : Γ.Regular) : Γ.child.Regular := by
  intro block hb key arity f hf
  rcases List.mem_cons.1 hb with rfl | hb
  · cases hf
  · exact h block hb key arity f hf

/-- Outside all programs there is one function. -/
theorem StaticBlock.standard_lookup {key : Key × Nat} {g : Signature}
    (h : StaticBlock.standard.functions.lookup key = some g) :
    key = (.text "print", 1) ∧ g = ⟨none, .string "print", [.any], .nil⟩ := by
  simp only [StaticBlock.standard, List.lookup_cons, List.lookup_nil] at h
  split at h
  · rename_i same
    cases h
    exact ⟨beq_iff_eq.1 same, rfl⟩
  · cases h

theorem Context.Regular.standard {outer : List StaticBlock}
    (h : ∀ block ∈ outer, ∀ key arity f,
      block.functions.lookup (key, arity) = some f → f.parameters.length = arity) :
    (Context.mk .standard outer).Regular := by
  intro block mem key arity f known
  rcases List.mem_cons.1 mem with rfl | mem
  · obtain ⟨same, rfl⟩ := StaticBlock.standard_lookup known
    cases same
    rfl
  · exact h block mem key arity f known

theorem Context.Regular.arity {Γ : Context} (h : Γ.Regular) {key : Key} {arity : Nat}
    {f : Signature} (hf : Γ.findFunction key arity = some f) : f.parameters.length = arity := by
  obtain ⟨block, hb, hl⟩ := List.exists_of_findSome?_eq_some hf
  exact h block hb key arity f hl

theorem key_ok {name : Json} {key : Key} : name.key = .ok key ↔ name.key? = some key := by
  unfold Json.key
  cases name.key? <;> simp

theorem bindingOf_ok {Γ : Context} {name : Json} {subject : Node Label} {b : Binding} :
    Γ.bindingOf name subject = .ok b ↔
      ∃ key, name.key? = some key ∧ Γ.findVariable key = some b := by
  unfold Context.bindingOf
  simp only [bind, Except.bind, Json.key]
  cases name.key? with
  | none => simp
  | some key =>
    cases h : Γ.findVariable key <;> simp [h, pure, Except.pure, throw, throwThe,
      MonadExceptOf.throw]

theorem signatureOf_ok {Γ : Context} {name : Json} {arity : Nat} {subject : Node Label}
    {f : Signature} : Γ.signatureOf name arity subject = .ok f ↔
      ∃ key, name.key? = some key ∧ Γ.findFunction key arity = some f := by
  unfold Context.signatureOf
  simp only [bind, Except.bind, Json.key]
  cases name.key? with
  | none => simp
  | some key =>
    cases h : Γ.findFunction key arity <;> simp [h, pure, Except.pure, throw, throwThe,
      MonadExceptOf.throw]

theorem requireAssignable_ok {target source : Ty} {subject : Node Label} {u : Unit} :
    requireAssignable target source subject = .ok u ↔ target.accepts source = true := by
  unfold requireAssignable
  split <;> simp_all

theorem isAbsent_iff {n : Node Label} : n.isAbsent = true ↔ n = .absent := by
  cases n <;> simp [Node.isAbsent]

/-! What the checker asks of an expression, by its form, and what it notes about it. -/

section

variable {Γ : Context} {σ σ' : Annotations} {label : Label} {t : Ty} {name : Json}

theorem gives_literal {value : Literal} :
    ((Node.literal label value).checkExpression Γ).Gives σ t σ' ↔
      value.check (.literal label value) = .ok t ∧
        σ.modify label (fun a => { a with type := some t }) = σ' := by
  constructor
  · intro h
    obtain ⟨_, checked, h⟩ := gives_lift_bind.1 h
    obtain ⟨rfl, rfl⟩ := gives_annotateType.1 h
    exact ⟨checked, rfl⟩
  · rintro ⟨checked, rfl⟩
    exact gives_lift_bind.2 ⟨t, checked, gives_annotateType.2 ⟨rfl, rfl⟩⟩

theorem gives_group {inner : Node Label} :
    ((Node.group label inner).checkExpression Γ).Gives σ t σ' ↔
      inner.isBinary = true ∧ ∃ τ, (inner.checkExpression Γ).Gives σ t τ ∧
        τ.modify label (fun a => { a with type := some t }) = σ' := by
  constructor
  · intro h
    obtain ⟨binary, h⟩ := gives_unless.1 h
    obtain ⟨_, τ, inside, h⟩ := gives_bind.1 h
    obtain ⟨rfl, rfl⟩ := gives_annotateType.1 h
    exact ⟨by simpa using binary, τ, inside, rfl⟩
  · rintro ⟨binary, τ, inside, rfl⟩
    refine gives_unless.2 ⟨by simp [binary], gives_bind.2 ⟨t, τ, inside, ?_⟩⟩
    exact gives_annotateType.2 ⟨rfl, rfl⟩

theorem gives_binary {op : Operator} {left right : Node Label} :
    ((Node.binary label op left right).checkExpression Γ).Gives σ t σ' ↔
      ∃ l r τ τ', (left.checkExpression Γ).Gives σ l τ ∧ (right.checkExpression Γ).Gives τ r τ' ∧
        binaryType op left right (.binary label op left right) l r = .ok t ∧
        τ'.modify label (fun a => { a with type := some t }) = σ' := by
  constructor
  · intro h
    obtain ⟨l, τ, hl, h⟩ := gives_bind.1 h
    obtain ⟨r, τ', hr, h⟩ := gives_bind.1 h
    obtain ⟨_, applies, h⟩ := gives_lift_bind.1 h
    obtain ⟨rfl, rfl⟩ := gives_annotateType.1 h
    exact ⟨l, r, τ, τ', hl, hr, applies, rfl⟩
  · rintro ⟨l, r, τ, τ', hl, hr, applies, rfl⟩
    refine gives_bind.2 ⟨l, τ, hl, gives_bind.2 ⟨r, τ', hr, ?_⟩⟩
    exact gives_lift_bind.2 ⟨t, applies, gives_annotateType.2 ⟨rfl, rfl⟩⟩

/-- A binding and a type are two notes about one node. -/
theorem gives_named {subject : Node Label} :
    (do let b ← Γ.bindingOf name subject
        annotate label fun a => { a with binding := b }
        annotateType label b.type : Checking Ty).Gives σ t σ' ↔
      ∃ key b, name.key? = some key ∧ Γ.findVariable key = some b ∧ b.type = t ∧
        σ.modify label (fun a => { a with binding := some b, type := some b.type }) = σ' := by
  constructor
  · intro h
    obtain ⟨b, known, h⟩ := gives_lift_bind.1 h
    obtain ⟨key, isName, inScope⟩ := bindingOf_ok.1 known
    obtain ⟨_, _, noted, h⟩ := gives_bind.1 h
    obtain rfl := gives_annotate.1 noted
    obtain ⟨rfl, rfl⟩ := gives_annotateType.1 h
    exact ⟨key, b, isName, inScope, rfl, by rw [modify_modify]⟩
  · rintro ⟨key, b, isName, inScope, rfl, rfl⟩
    refine gives_lift_bind.2 ⟨b, bindingOf_ok.2 ⟨key, isName, inScope⟩, ?_⟩
    refine gives_bind.2 ⟨(), _, gives_annotate.2 rfl, gives_annotateType.2 ⟨rfl, ?_⟩⟩
    exact modify_modify

theorem gives_access :
    ((Node.access label name .absent).checkExpression Γ).Gives σ t σ' ↔
      ∃ key b, name.key? = some key ∧ Γ.findVariable key = some b ∧ b.type = t ∧
        σ.modify label (fun a => { a with binding := some b, type := some b.type }) = σ' :=
  gives_named

theorem gives_element {offset : Node Label} (given : offset.isAbsent = false) :
    ((Node.access label name offset).checkExpression Γ).Gives σ t σ' ↔
      ∃ key b τ, (offset.checkExpression Γ).Gives σ .integer τ ∧
        name.key? = some key ∧ Γ.findVariable key = some b ∧ b.type = t ∧
        τ.modify label (fun a => { a with binding := some b, type := some b.type }) = σ' := by
  have index : (!offset.isAbsent) = true := by simp [given]
  constructor
  · intro h
    unfold Node.checkExpression at h
    rw [if_pos index] at h
    obtain ⟨u, τ, found, h⟩ := gives_bind.1 h
    obtain ⟨isInteger, h⟩ := gives_unless.1 h
    obtain ⟨key, b, named⟩ := gives_named.1 h
    obtain rfl := Decidable.not_not.1 isInteger
    exact ⟨key, b, τ, found, named⟩
  · rintro ⟨key, b, τ, found, named⟩
    unfold Node.checkExpression
    rw [if_pos index]
    refine gives_bind.2 ⟨.integer, τ, found, ?_⟩
    exact gives_unless.2 ⟨fun other => other rfl, gives_named.2 ⟨key, b, named⟩⟩

theorem gives_call {arguments : List (Node Label)} :
    ((Node.call label name (.list arguments)).checkExpression Γ).Gives σ t σ' ↔
      ∃ key f τ, name.key? = some key ∧ Γ.findFunction key arguments.length = some f ∧
        (Node.checkArguments Γ arguments f.parameters).Gives σ () τ ∧ f.returns = t ∧
        τ.modify label (fun a => { a with signature := some f, type := some f.returns }) = σ' := by
  constructor
  · intro h
    obtain ⟨f, known, h⟩ := gives_lift_bind.1 h
    obtain ⟨key, isName, inScope⟩ := signatureOf_ok.1 known
    obtain ⟨_, τ, given, h⟩ := gives_bind.1 h
    obtain ⟨_, _, noted, h⟩ := gives_bind.1 h
    obtain rfl := gives_annotate.1 noted
    obtain ⟨rfl, rfl⟩ := gives_annotateType.1 h
    exact ⟨key, f, τ, isName, inScope, given, rfl, by rw [modify_modify]⟩
  · rintro ⟨key, f, τ, isName, inScope, given, rfl, rfl⟩
    refine gives_lift_bind.2 ⟨f, ?_, gives_bind.2 ⟨(), τ, given, ?_⟩⟩
    · exact signatureOf_ok.2 ⟨key, isName, inScope⟩
    · refine gives_bind.2 ⟨(), _, gives_annotate.2 rfl, gives_annotateType.2 ⟨rfl, ?_⟩⟩
      exact modify_modify

theorem gives_missing :
    ((Node.listLiteral label .absent).checkExpression Γ).Gives σ t σ' ↔
      .any = t ∧ σ.modify label (fun a => { a with type := some .any }) = σ' :=
  gives_annotateType

theorem gives_list {elements : List (Node Label)} :
    ((Node.listLiteral label (.list elements)).checkExpression Γ).Gives σ t σ' ↔
      ∃ τ, (Node.checkElements Γ elements).Gives σ t τ ∧
        τ.modify label (fun a => { a with type := some t }) = σ' := by
  constructor
  · intro h
    obtain ⟨_, τ, inside, h⟩ := gives_bind.1 h
    obtain ⟨rfl, rfl⟩ := gives_annotateType.1 h
    exact ⟨τ, inside, rfl⟩
  · rintro ⟨τ, inside, rfl⟩
    exact gives_bind.2 ⟨t, τ, inside, gives_annotateType.2 ⟨rfl, rfl⟩⟩

theorem gives_checkArguments_cons {argument : Node Label} {rest : List (Node Label)} {p : Ty}
    {parameters : List Ty} :
    (Node.checkArguments Γ (argument :: rest) (p :: parameters)).Gives σ () σ' ↔
      ∃ t τ, (argument.checkExpression Γ).Gives σ t τ ∧ p.accepts t = true ∧
        (Node.checkArguments Γ rest parameters).Gives τ () σ' := by
  constructor
  · intro h
    obtain ⟨t, τ, first, h⟩ := gives_bind.1 h
    obtain ⟨_, fits, others⟩ := gives_lift_bind.1 h
    exact ⟨t, τ, first, requireAssignable_ok.1 fits, others⟩
  · rintro ⟨t, τ, first, fits, others⟩
    refine gives_bind.2 ⟨t, τ, first, gives_lift_bind.2 ⟨(), ?_, others⟩⟩
    exact requireAssignable_ok.2 fits

theorem gives_checkElements_cons {first : Node Label} {rest : List (Node Label)} :
    (Node.checkElements Γ (first :: rest)).Gives σ t σ' ↔
      ∃ u τ, (first.checkExpression Γ).Gives σ t τ ∧
        (Node.checkElements Γ rest).Gives τ u σ' := by
  constructor
  · intro h
    obtain ⟨_, τ, here, h⟩ := gives_bind.1 h
    obtain ⟨u, _, others, h⟩ := gives_bind.1 h
    obtain ⟨rfl, rfl⟩ := gives_pure.1 h
    exact ⟨u, τ, here, others⟩
  · rintro ⟨u, τ, here, others⟩
    exact gives_bind.2 ⟨t, τ, here, gives_bind.2 ⟨u, σ', others, gives_pure.2 ⟨rfl, rfl⟩⟩⟩

end

section

variable {D : Demands} {Γ : Context}

theorem typeOf_typed {found : Annotations} {e : Node Label} {t : Ty} (h : Typed D found Γ e t) :
    found.typeOf e = some t := by
  cases h <;> assumption

/-- Values are ordered only with values of the same type. -/
theorem same_of_order {op : Operator} {left right node : Node Label} {l r t : Ty}
    (ho : op = .less ∨ op = .greater) (h : binaryType op left right node l r = .ok t) : l = r := by
  rcases ho with rfl | rfl
  all_goals
    simp only [binaryType, bind, Except.bind] at h
    split at h
    · contradiction
    · split at h
      · contradiction
      · split at h
        · assumption
        · contradiction

mutual
/-- What the checker finds of an expression is right, as long as it lasts. -/
theorem typed_of_check (e : Node Label) {t : Ty} {σ σ' : Annotations}
    (h : (e.checkExpression Γ).Gives σ t σ') :
    Within e.labels σ σ' ∧ ∀ {found : Annotations}, Γ.Regular → Lasts found σ' e.labels →
      (D.typed → e.Every (Node.Disciplined found)) → Typed D found Γ e t := by
  match e with
  | .literal label value =>
    obtain ⟨ht, rfl⟩ := gives_literal.1 h
    refine ⟨Within.modify, fun hr last _ => .literal ht ?_⟩
    rw [last.head]
  | .group label inner =>
    obtain ⟨_, _, hi, rfl⟩ := gives_group.1 h
    obtain ⟨wi, ti⟩ := typed_of_check inner hi
    refine ⟨(wi.append Within.modify).mono (by grind [Node.labels]), fun hr last hd => ?_⟩
    exact .group (ti hr last.tail fun d => (hd d).2) (by rw [last.head])
  | .binary label op left right =>
    obtain ⟨l, r, _, _, hl, hr', ht, rfl⟩ := gives_binary.1 h
    obtain ⟨wl, tl⟩ := typed_of_check left hl
    obtain ⟨wr, tr⟩ := typed_of_check right hr'
    refine ⟨((wl.append wr).append Within.modify).mono (by grind [Node.labels]),
      fun hr last hd => ?_⟩
    have left_typed := tl hr (last.tail.left wr) fun d => (hd d).2.1
    have right_typed := tr hr last.tail.right fun d => (hd d).2.2
    refine .binary left_typed right_typed ht (fun d ho hc => ?_) (by rw [last.head])
    have hne := (hd d).1 ho
    rw [typeOf_typed left_typed, typeOf_typed right_typed, ← same_of_order ho ht, hc] at hne
    exact hne ⟨rfl, rfl⟩
  | .access label name offset =>
    cases given : offset.isAbsent with
    | true =>
      obtain rfl := isAbsent_iff.1 given
      obtain ⟨key, b, hk, hb, rfl, rfl⟩ := gives_access.1 h
      exact ⟨Within.modify, fun hr last _ =>
        .access hk hb (by rw [last.head]) (by rw [last.head])⟩
    | false =>
      obtain ⟨key, b, _, ho, hk, hb, rfl, rfl⟩ := (gives_element given).1 h
      obtain ⟨wo, index⟩ := typed_of_check offset ho
      refine ⟨(wo.append Within.modify).mono (by grind [Node.labels]), fun hr last hd => ?_⟩
      refine .element (fun d => ?_) given ?_ hk hb ?_ ?_
      · have absent : offset.isAbsent = true := (hd d).1
        simp [absent] at given
      · exact index hr last.tail fun d => (hd d).2
      · rw [last.head]
      · rw [last.head]
  | .call label name arguments =>
    cases arguments with
    | list arguments =>
      obtain ⟨key, f, _, hk, hf, ha, rfl, rfl⟩ := gives_call.1 h
      obtain ⟨wa, ta⟩ := typedArguments_of_check arguments f.parameters ha
      refine ⟨(wa.append Within.modify).mono (by grind [Node.labels]), fun hr last hd => ?_⟩
      exact .call hk hf (ta hr (hr.arity hf) last.tail fun d => (hd d).2.2) (by rw [last.head])
    | _ => exact (gives_throw h).elim
  | .listLiteral label elements =>
    cases elements with
    | absent =>
      obtain ⟨rfl, rfl⟩ := gives_missing.1 h
      exact ⟨Within.modify, fun hr last hd => .missing (fun d => (hd d).1) (by rw [last.head])⟩
    | list elements =>
      obtain ⟨_, he, rfl⟩ := gives_list.1 h
      obtain ⟨we, te⟩ := typedElements_of_check elements he
      refine ⟨(we.append Within.modify).mono (by grind [Node.labels]), fun hr last hd => ?_⟩
      exact .list (fun d => (hd d).1) (te hr last.tail fun d => (hd d).2.2) (by rw [last.head])
    | _ => exact (gives_throw h).elim
  | .absent | .list _ | .source .. | .global .. | .parameter .. | .function .. | .expressionStmt _
  | .declaration .. | .assignment .. | .conditional .. | .case .. | .switch .. | .loop ..
  | .ret _ => exact (gives_throw h).elim

theorem typedArguments_of_check (arguments : List (Node Label)) (parameters : List Ty) {u : Unit}
    {σ σ' : Annotations} (h : (Node.checkArguments Γ arguments parameters).Gives σ u σ') :
    Within (Node.allLabels arguments) σ σ' ∧
      ∀ {found : Annotations}, Γ.Regular → parameters.length = arguments.length →
        Lasts found σ' (Node.allLabels arguments) →
        (D.typed → Node.EveryOne (Node.Disciplined found) arguments) →
        TypedArguments D found Γ arguments parameters := by
  match arguments, parameters with
  | [], [] =>
    obtain ⟨_, rfl⟩ := gives_pure.1 h
    exact ⟨.refl, fun _ _ _ _ => .nil⟩
  | [], _ :: _ | _ :: _, [] =>
    obtain ⟨_, rfl⟩ := gives_pure.1 h
    exact ⟨.refl, fun _ hl _ _ => by simp at hl⟩
  | argument :: rest, p :: parameters =>
    obtain ⟨t, _, ht, hp, ho⟩ := gives_checkArguments_cons.1 h
    obtain ⟨wt, tt⟩ := typed_of_check argument ht
    obtain ⟨wo, others⟩ := typedArguments_of_check rest parameters ho
    refine ⟨wt.append wo, fun hr hl last hd => .cons ?_ hp ?_⟩
    · exact tt hr (last.left wo) fun d => (hd d).1
    · exact others hr (by simpa using hl) last.right fun d => (hd d).2

theorem typedElements_of_check (elements : List (Node Label)) {t : Ty}
    {σ σ' : Annotations} (h : (Node.checkElements Γ elements).Gives σ t σ') :
    Within (Node.allLabels elements) σ σ' ∧
      ∀ {found : Annotations}, Γ.Regular → Lasts found σ' (Node.allLabels elements) →
        (D.typed → Node.EveryOne (Node.Disciplined found) elements) →
        TypedElements D found Γ elements t := by
  match elements with
  | [] =>
    obtain ⟨rfl, rfl⟩ := gives_pure.1 h
    exact ⟨.refl, fun _ _ _ => .nil⟩
  | first :: rest =>
    obtain ⟨_, _, hf, ho⟩ := gives_checkElements_cons.1 h
    obtain ⟨wf, tf⟩ := typed_of_check first hf
    obtain ⟨wo, others⟩ := typedElements_of_check rest ho
    exact ⟨wf.append wo, fun hr last hd =>
      .cons (tf hr (last.left wo) fun d => (hd d).1) (others hr last.right fun d => (hd d).2)⟩
end

theorem within_of_check {e : Node Label} {t : Ty} {σ σ' : Annotations}
    (h : (e.checkExpression Γ).Gives σ t σ') : Within e.labels σ σ' :=
  (typed_of_check (D := ⟨False, False⟩) e h).1

theorem within_of_checkArguments {arguments : List (Node Label)} {parameters : List Ty} {u : Unit}
    {σ σ' : Annotations} (h : (Node.checkArguments Γ arguments parameters).Gives σ u σ') :
    Within (Node.allLabels arguments) σ σ' :=
  (typedArguments_of_check (D := ⟨False, False⟩) arguments parameters h).1

theorem within_of_checkElements {elements : List (Node Label)} {t : Ty} {σ σ' : Annotations}
    (h : (Node.checkElements Γ elements).Gives σ t σ') :
    Within (Node.allLabels elements) σ σ' :=
  (typedElements_of_check (D := ⟨False, False⟩) elements h).1

end

end PlcLang
