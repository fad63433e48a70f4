import PlcLang.Proofs.Checking.Found
import PlcLang.Proofs.Relocation.Types

namespace PlcLang

def Signature.relocate (r : Relocation) (f : Signature) : Signature :=
  { f with id := f.id.map (DeclId.relocate r) }

def Annotation.relocate (r : Relocation) (a : Annotation) : Annotation :=
  ⟨a.type, a.binding.map (Binding.relocate r), a.signature.map (Signature.relocate r)⟩

/-- What is known of a node by now, in front of what was known before. -/
def Annotation.orElse (a old : Annotation) : Annotation :=
  ⟨a.type <|> old.type, a.binding <|> old.binding, a.signature <|> old.signature⟩

def StaticBlock.relocate (r : Relocation) (S : StaticBlock) : StaticBlock :=
  ⟨S.vars.map (Prod.map id (Binding.relocate r)),
    S.functions.map (Prod.map id (Signature.relocate r))⟩

/-- The names in scope, for a program with other identities. -/
def Context.relocate (r : Relocation) (Γ : Context) : Context :=
  ⟨Γ.inner.relocate r, Γ.outer.map (StaticBlock.relocate r)⟩

namespace Context

variable {r : Relocation} {Γ : Context} {key : Key}

theorem blocks_relocate : (Γ.relocate r).blocks = Γ.blocks.map (StaticBlock.relocate r) := rfl

theorem findVariable_relocate :
    (Γ.relocate r).findVariable key = (Γ.findVariable key).map (Binding.relocate r) := by
  simp only [findVariable, blocks_relocate, List.findSome?_map, List.map_findSome?]
  exact congrArg (List.findSome? · _) (funext fun S => lookup_map Function.injective_id _ S.vars key)

theorem findFunction_relocate (arity : Nat) :
    (Γ.relocate r).findFunction key arity =
      (Γ.findFunction key arity).map (Signature.relocate r) := by
  simp only [findFunction, blocks_relocate, List.findSome?_map, List.map_findSome?]
  exact congrArg (List.findSome? · _)
    (funext fun S => lookup_map Function.injective_id _ S.functions (key, arity))

theorem bindingOf_relocate (name : Json) (subject : Node Label) :
    (Γ.relocate r).bindingOf name (subject.map r.label) =
      r.result (Binding.relocate r) (Γ.bindingOf name subject) := by
  refine Relocation.result_bind (key_relocate name) fun key => ?_
  simp only [id, findVariable_relocate]
  cases Γ.findVariable key <;> rfl

theorem signatureOf_relocate (name : Json) (arity : Nat) (subject : Node Label) :
    (Γ.relocate r).signatureOf name arity (subject.map r.label) =
      r.result (Signature.relocate r) (Γ.signatureOf name arity subject) := by
  refine Relocation.result_bind (key_relocate name) fun key => ?_
  simp only [id, findFunction_relocate]
  cases Γ.findFunction key arity <;> rfl

theorem addVariable_relocate (b : Binding) :
    (Γ.relocate r).addVariable key (b.relocate r) =
      (Γ.addVariable key b).map (Context.relocate r) := by
  have taken : (Γ.relocate r).inner.vars.has key = Γ.inner.vars.has key :=
    (congrArg Option.isSome (lookup_map Function.injective_id _ Γ.inner.vars key)).trans
      Option.isSome_map
  have put : (Γ.relocate r).inner.vars.put key (b.relocate r) =
      (Γ.inner.vars.put key b).map (Prod.map id (Binding.relocate r)) :=
    put_map Function.injective_id _ Γ.inner.vars key b
  simp only [addVariable, taken, put]
  split <;> rfl

theorem addFunction_relocate (f : Signature) :
    (Γ.relocate r).addFunction key (f.relocate r) =
      (Γ.addFunction key f).map (Context.relocate r) := by
  have arity : (f.relocate r).arity = f.arity := rfl
  have taken : (Γ.relocate r).inner.functions.has (key, f.arity) =
      Γ.inner.functions.has (key, f.arity) :=
    (congrArg Option.isSome (lookup_map Function.injective_id _ Γ.inner.functions _)).trans
      Option.isSome_map
  have put : (Γ.relocate r).inner.functions.put (key, f.arity) (f.relocate r) =
      (Γ.inner.functions.put (key, f.arity) f).map (Prod.map id (Signature.relocate r)) :=
    put_map Function.injective_id _ Γ.inner.functions _ f
  simp only [addFunction, arity, taken, put]
  split <;> rfl

end Context

/-- A walk with other identities has found the same of the nodes so far. What `old` knew of a node
shows where the walk has found nothing, and of other nodes nothing has changed. -/
structure Annotations.Follows (r : Relocation) (old found found' : Annotations) : Prop where
  here : ∀ label, found'.of (r.label label) =
    ((found.of label).relocate r).orElse (old.of (r.label label))
  others : ∀ label, (∀ l, r.label l ≠ label) → found'.of label = old.of label
  room : ∀ label, r.label label < found'.size ↔ label < found.size
  size : found'.size = old.size

/-- Two walks of the checker do the same, the second with other identities. -/
def Checking.Relocates (r : Relocation) (old : Annotations) {α β : Type} (g : α → β)
    (x : Checking α) (y : Checking β) : Prop :=
  ∀ found found', Annotations.Follows r old found found' →
    (y.run.run found').1 = r.result g (x.run.run found).1 ∧
      Annotations.Follows r old (x.run.run found).2 (y.run.run found').2

open Annotations

namespace Checking.Relocates

variable {r : Relocation} {old : Annotations} {α β γ δ : Type} {g : α → β} {g' : γ → δ}

theorem pure {a : α} {b : β} (same : b = g a) :
    Relocates r old g (Pure.pure a) (Pure.pure b) :=
  fun _ _ follows => ⟨congrArg Except.ok same, follows⟩

theorem throw {f f' : Fault} (same : f' = f.relocate r) :
    Relocates r old g (MonadExcept.throw f) (MonadExcept.throw f') :=
  fun _ _ follows => ⟨congrArg Except.error same, follows⟩

theorem lift {x : Except Fault α} {y : Except Fault β} (same : y = r.result g x) :
    Relocates r old g (liftM x) (liftM y) :=
  fun _ _ follows => ⟨same, follows⟩

theorem bind {x : Checking α} {y : Checking β} {k : α → Checking γ} {k' : β → Checking δ}
    (h : Relocates r old g x y) (hk : ∀ a, Relocates r old g' (k a) (k' (g a))) :
    Relocates r old g' (x >>= k) (y >>= k') := by
  intro found found' follows
  obtain ⟨same, follows⟩ := h found found' follows
  simp only [ExceptT.run_bind, StateT.run_bind]
  generalize x.run.run found = first at *
  generalize y.run.run found' = second at *
  obtain ⟨result, found⟩ := first
  obtain ⟨result', found'⟩ := second
  simp only at same follows
  subst same
  cases result with
  | error f => exact ⟨rfl, follows⟩
  | ok a => exact hk a found found' follows

/-- A node is annotated: what is found of it comes in front of what was known before. -/
theorem annotate {label : Label} {change change' : Annotation → Annotation}
    (same : ∀ a o : Annotation,
      change' ((a.relocate r).orElse o) = ((change a).relocate r).orElse o) :
    Relocates r old id (PlcLang.annotate label change)
      (PlcLang.annotate (r.label label) change') := by
  intro found found' follows
  refine ⟨rfl, ?_⟩
  change Annotations.Follows r old (found.modify label change) (found'.modify (r.label label) change')
  by_cases room : label < found.size
  · have room' := (follows.room label).2 room
    refine ⟨fun other => ?_, fun other outside => ?_, fun other => ?_, ?_⟩
    · by_cases here : other = label
      · subst here
        rw [of_modify_self room, of_modify_self room', follows.here, same]
      · rw [of_modify_other here, of_modify_other (r.injective.ne here), follows.here]
    · rw [of_modify_other (outside label).symm, follows.others other outside]
    · rw [Array.size_modify, Array.size_modify, follows.room]
    · rw [Array.size_modify, follows.size]
  · have room' := mt (follows.room label).1 room
    rw [modify_beyond room, modify_beyond room']
    exact follows

theorem annotateType {label : Label} {t : Ty} :
    Relocates r old id (PlcLang.annotateType label t)
      (PlcLang.annotateType (r.label label) t) :=
  bind (annotate fun _ _ => rfl) fun _ => pure rfl

/-- Both walks go on after the same test, or both stop. -/
theorem guarded {p p' : Prop} [Decidable p] [Decidable p'] {f f' : Fault} {x : Checking α}
    {y : Checking β} (same : p' ↔ p) (fault : f' = f.relocate r) (h : Relocates r old g x y) :
    Relocates r old g (if p then MonadExcept.throw f >>= fun (_ : PUnit) => x else x)
      (if p' then MonadExcept.throw f' >>= fun (_ : PUnit) => y else y) := by
  by_cases stop : p
  · rw [if_pos stop, if_pos (same.2 stop)]
    exact fun _ _ follows => ⟨congrArg Except.error fault, follows⟩
  · rw [if_neg stop, if_neg (mt same.1 stop)]
    exact h

end Checking.Relocates

end PlcLang
