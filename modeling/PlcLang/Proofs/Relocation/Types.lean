import PlcLang.Checker.Program
import PlcLang.Proofs.Relocation.Store

namespace PlcLang

/-! Rules that show a node only in their faults. -/

variable {r : Relocation}

open Relocation

theorem key_relocate (name : Json) : name.key = r.result id name.key := by
  cases isName : name.key with
  | ok key => rfl
  | error f => exact congrArg Except.error (plain_of_key isName).symm

theorem Node.items_map (r : Relocation) (n : Node Label) :
    (n.map r.label).items = r.result (Node.mapAll r.label) n.items := by
  cases n <;> rfl

theorem required_relocate {α β : Type} (g : α → β) (part : Option α) :
    required (part.map g) = r.result g (required part) := by
  cases part <;> rfl

theorem requireAssignable_relocate (target source : Ty) (subject : Node Label) :
    requireAssignable target source (subject.map r.label) =
      r.result id (requireAssignable target source subject) := by
  unfold requireAssignable
  split <;> rfl

theorem resolveType_relocate (name : Json) (subject : Node Label) :
    resolveType name (subject.map r.label) = r.result id (resolveType name subject) := by
  refine result_bind (key_relocate name) fun _ => ?_
  cases Ty.ofJson? name <;> rfl

theorem resolveOptional_relocate (typeName : Json) (subject : Node Label) :
    resolveOptional typeName (subject.map r.label) =
      r.result id (resolveOptional typeName subject) := by
  unfold resolveOptional
  split
  · rfl
  · exact result_map (resolveType_relocate typeName subject) fun _ => rfl

theorem declaredType_relocate (declared found : Option Ty) (untyped : Cause)
    (subject : Node Label) :
    declaredType declared found untyped (subject.map r.label) =
      r.result id (declaredType declared found untyped subject) := by
  cases declared with
  | none => cases found <;> rfl
  | some d =>
    cases found with
    | none => rfl
    | some t => exact result_bind (requireAssignable_relocate d t subject) fun _ => rfl

theorem Literal.check_relocate (value : Literal) (subject : Node Label) :
    value.check (subject.map r.label) = r.result id (value.check subject) := by
  cases value with
  | integer n =>
    simp only [Literal.check]
    split
    · rfl
    · exact congrArg Except.error (Fault.ofInteger_relocate n _ (some subject)).symm
  | decimal d =>
    simp only [Literal.check]
    split <;> rfl
  | _ => rfl

theorem numericType_relocate (op : Operator) (left right : Node Label) (l t : Ty) :
    numericType op (left.map r.label) (right.map r.label) l t =
      r.result id (numericType op left right l t) := by
  unfold numericType
  split
  · exact result_bind (requireAssignable_relocate l t right) fun _ => rfl
  · rfl

theorem binaryType_relocate (op : Operator) (left right node : Node Label) (l t : Ty) :
    binaryType op (left.map r.label) (right.map r.label) (node.map r.label) l t =
      r.result id (binaryType op left right node l t) := by
  have assignable := requireAssignable_relocate (r := r)
  cases op with
  | and | or | power =>
    exact result_bind (assignable _ l left) fun _ => result_bind (assignable _ t right) fun _ => rfl
  | less | greater | equal | unequal =>
    refine result_bind (assignable _ l left) fun _ => result_bind (assignable _ t right) fun _ => ?_
    split <;> rfl
  | plus =>
    simp only [binaryType]
    split
    · rfl
    · exact numericType_relocate ..
  | minus | times | divide => exact numericType_relocate ..
  | other given => rfl

theorem headerTypes_relocate (function : Node Label) (parameters : List (Node Label)) :
    (function.map r.label).headerTypes (Node.mapAll r.label parameters) =
      r.result (List.map (Prod.map (Declared.map r.label) id))
        (function.headerTypes parameters) := by
  induction parameters with
  | nil => rfl
  | cons p rest ih =>
    have declared : required (p.map r.label).declared? =
        r.result (Declared.map r.label) (required p.declared?) := by
      rw [Node.declared?_map]
      exact required_relocate _ _
    exact result_bind declared fun d => result_bind (resolveType_relocate d.typeName function)
      fun t => result_bind ih fun _ => rfl

theorem checkMain_relocate (function : Node Label) :
    (function.map r.label).checkMain = r.result id function.checkMain := by
  have name : required (function.map r.label).name? = r.result id (required function.name?) := by
    rw [Node.name?_map]
    cases function.name? <;> rfl
  refine result_bind name fun name => ?_
  simp only [id]
  split
  · rfl
  · cases function with
    | function label name parameters returnTypeName statements =>
      simp only [Node.map, Node.isEmpty_map]
      split
      · rfl
      · split <;> rfl
    | _ => rfl

end PlcLang
