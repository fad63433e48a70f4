import Mathlib.Logic.Basic
import PlcLang.Tree.Annotation

namespace PlcLang

mutual
/-- The labels of a tree, each before those of the parts of its node. -/
def Node.labels {α : Type} : Node α → List α
  | .absent => []
  | .list items => Node.allLabels items
  | .source globals functions => globals.labels ++ functions.labels
  | .global label _ _ _ value => label :: value.labels
  | .parameter label _ _ => [label]
  | .function label _ parameters _ statements => label :: (parameters.labels ++ statements.labels)
  | .expressionStmt expression => expression.labels
  | .declaration label _ _ value => label :: value.labels
  | .assignment receiver value => receiver.labels ++ value.labels
  | .conditional condition thenStatements elseStatements =>
    condition.labels ++ (thenStatements.labels ++ elseStatements.labels)
  | .case value statements => value.labels ++ statements.labels
  | .switch condition cases => condition.labels ++ cases.labels
  | .loop condition statements => condition.labels ++ statements.labels
  | .ret value => value.labels
  | .literal label _ => [label]
  | .group label expression => label :: expression.labels
  | .binary label _ left right => label :: (left.labels ++ right.labels)
  | .access label _ offset => label :: offset.labels
  | .call label _ arguments => label :: arguments.labels
  | .listLiteral label elements => label :: elements.labels

def Node.allLabels {α : Type} : List (Node α) → List α
  | [] => []
  | n :: rest => n.labels ++ Node.allLabels rest
end

/-- Labels given out one after another, from `l` to below `l'`. -/
def Counted (labels : List Nat) (l l' : Nat) : Prop :=
  l ≤ l' ∧ labels = List.range' l (l' - l)

namespace Counted

variable {xs ys : List Nat} {l m k : Nat}

theorem nil : Counted [] l l := by
  simp [Counted]

theorem append (hx : Counted xs l m) (hy : Counted ys m k) : Counted (xs ++ ys) l k := by
  obtain ⟨hlm, rfl⟩ := hx
  obtain ⟨hmk, rfl⟩ := hy
  refine ⟨Nat.le_trans hlm hmk, ?_⟩
  have hm : m = l + (m - l) := by omega
  have hk : k - l = (m - l) + (k - m) := by omega
  rw [hk, ← List.range'_append_1, ← hm]

theorem cons (hx : Counted xs (l + 1) m) : Counted (l :: xs) l m := by
  have hl : Counted [l] l (l + 1) := by simp [Counted]
  exact hl.append hx

theorem nodup (hx : Counted xs l m) : xs.Nodup := by
  rw [hx.2]
  exact List.nodup_range'

theorem le (hx : Counted xs l m) {label : Nat} (h : label ∈ xs) : l ≤ label := by
  rw [hx.2, List.mem_range'_1] at h
  exact h.1

theorem lt (hx : Counted xs l m) {label : Nat} (h : label ∈ xs) : label < m := by
  have hm := hx.1
  rw [hx.2, List.mem_range'_1] at h
  omega

end Counted

mutual
/-- A tree gets labels of its own, one after another. -/
theorem Node.withLabels_counted {α : Type} (n : Node α) (l : Label) :
    Counted (n.withLabels l).1.labels l (n.withLabels l).2 := by
  match n with
  | .absent => exact .nil
  | .list items => exact Node.allWithLabels_counted items l
  | .source globals functions =>
    exact (globals.withLabels_counted l).append (functions.withLabels_counted _)
  | .global _ _ _ _ value => exact (value.withLabels_counted (l + 1)).cons
  | .parameter .. => exact Counted.nil.cons
  | .function _ _ parameters _ statements =>
    exact ((parameters.withLabels_counted (l + 1)).append (statements.withLabels_counted _)).cons
  | .expressionStmt expression => exact expression.withLabels_counted l
  | .declaration _ _ _ value => exact (value.withLabels_counted (l + 1)).cons
  | .assignment receiver value =>
    exact (receiver.withLabels_counted l).append (value.withLabels_counted _)
  | .conditional condition thenStatements elseStatements =>
    exact (condition.withLabels_counted l).append
      ((thenStatements.withLabels_counted _).append (elseStatements.withLabels_counted _))
  | .case value statements =>
    exact (value.withLabels_counted l).append (statements.withLabels_counted _)
  | .switch condition cases =>
    exact (condition.withLabels_counted l).append (cases.withLabels_counted _)
  | .loop condition statements =>
    exact (condition.withLabels_counted l).append (statements.withLabels_counted _)
  | .ret value => exact value.withLabels_counted l
  | .literal .. => exact Counted.nil.cons
  | .group _ expression => exact (expression.withLabels_counted (l + 1)).cons
  | .binary _ _ left right =>
    exact ((left.withLabels_counted (l + 1)).append (right.withLabels_counted _)).cons
  | .access _ _ offset => exact (offset.withLabels_counted (l + 1)).cons
  | .call _ _ arguments => exact (arguments.withLabels_counted (l + 1)).cons
  | .listLiteral _ elements => exact (elements.withLabels_counted (l + 1)).cons

theorem Node.allWithLabels_counted {α : Type} (ns : List (Node α)) (l : Label) :
    Counted (Node.allLabels (Node.allWithLabels ns l).1) l (Node.allWithLabels ns l).2 := by
  match ns with
  | [] => exact .nil
  | n :: rest => exact (n.withLabels_counted l).append (Node.allWithLabels_counted rest _)
end

mutual
/-- Without its labels, a tree that was given some is as before. -/
theorem Node.plain_withLabels (n : Node Unit) (l : Label) : (n.withLabels l).1.plain = n := by
  match n with
  | .absent | .parameter .. | .literal .. => rfl
  | .list items => exact congrArg Node.list (Node.allPlain_allWithLabels items l)
  | .source first second | .assignment first second | .case first second | .switch first second
  | .loop first second =>
    exact congrArg₂ _ (first.plain_withLabels l) (second.plain_withLabels _)
  | .global _ name isMutable typeName value =>
    exact congrArg (Node.global () name isMutable typeName) (value.plain_withLabels (l + 1))
  | .declaration _ name typeName value =>
    exact congrArg (Node.declaration () name typeName) (value.plain_withLabels (l + 1))
  | .function _ name parameters returnTypeName statements =>
    exact congrArg₂ (fun p s => Node.function () name p returnTypeName s)
      (parameters.plain_withLabels (l + 1)) (statements.plain_withLabels _)
  | .conditional condition thenStatements elseStatements =>
    have first := condition.plain_withLabels l
    have second := thenStatements.plain_withLabels (condition.withLabels l).2
    have third := elseStatements.plain_withLabels
      (thenStatements.withLabels (condition.withLabels l).2).2
    change Node.conditional _ _ _ = _
    rw [first, second, third]
  | .expressionStmt inner => exact congrArg Node.expressionStmt (inner.plain_withLabels l)
  | .ret inner => exact congrArg Node.ret (inner.plain_withLabels l)
  | .group _ inner => exact congrArg (Node.group ()) (inner.plain_withLabels (l + 1))
  | .binary _ op left right =>
    exact congrArg₂ (Node.binary () op) (left.plain_withLabels (l + 1)) (right.plain_withLabels _)
  | .access _ name offset => exact congrArg (Node.access () name) (offset.plain_withLabels (l + 1))
  | .call _ name arguments =>
    exact congrArg (Node.call () name) (arguments.plain_withLabels (l + 1))
  | .listLiteral _ elements =>
    exact congrArg (Node.listLiteral ()) (elements.plain_withLabels (l + 1))

theorem Node.allPlain_allWithLabels (ns : List (Node Unit)) (l : Label) :
    Node.allPlain (Node.allWithLabels ns l).1 = ns := by
  match ns with
  | [] => rfl
  | n :: rest => exact congrArg₂ _ (n.plain_withLabels l) (Node.allPlain_allWithLabels rest _)
end

/-- The labels of a tree that was taken up are its own, and there is room for what is found of
them. -/
theorem Node.annotated_labels (n : Node Unit) (found : Annotations) :
    (n.annotated found).tree.labels.Nodup ∧
      ∀ label ∈ (n.annotated found).tree.labels, label < (n.annotated found).found.size := by
  have h := n.withLabels_counted found.size
  refine ⟨h.nodup, fun label hl => ?_⟩
  have hsize : (n.annotated found).found.size = (n.withLabels found.size).2 := by
    change (found ++ Array.replicate _ _).size = _
    rw [Array.size_append, Array.size_replicate]
    exact Nat.add_sub_cancel' h.1
  rw [hsize]
  exact h.lt hl

/-- Nothing is known of a tree that was just taken up. -/
theorem Node.of_annotated (n : Node Unit) (label : Label) :
    (n.annotated #[]).found.of label = {} := by
  change ((#[] : Annotations) ++ Array.replicate _ _)[label]?.getD _ = _
  rw [Array.empty_append, Array.getElem?_replicate]
  split <;> rfl

/-! Labels given out in order are given out so again. -/

theorem Counted.of_append {xs ys : List Nat} {l k : Nat} (h : Counted (xs ++ ys) l k) :
    ∃ m, Counted xs l m ∧ Counted ys m k := by
  obtain ⟨le, same⟩ := h
  have length := congrArg List.length same
  rw [List.length_append, List.length_range'] at length
  have parts : List.range' l (k - l) =
      List.range' l xs.length ++ List.range' (l + xs.length) (k - (l + xs.length)) := by
    rw [List.range'_append_1]
    congr 1
    omega
  rw [parts] at same
  obtain ⟨first, second⟩ := List.append_inj same (by rw [List.length_range'])
  refine ⟨l + xs.length, ⟨by omega, ?_⟩, ⟨by omega, second⟩⟩
  rw [Nat.add_sub_cancel_left]
  exact first

theorem Counted.of_cons {x : Nat} {xs : List Nat} {l k : Nat} (h : Counted (x :: xs) l k) :
    x = l ∧ Counted xs (l + 1) k := by
  obtain ⟨m, ⟨le, first⟩, others⟩ := Counted.of_append (show Counted ([x] ++ xs) l k from h)
  have length := congrArg List.length first
  rw [List.length_singleton, List.length_range'] at length
  obtain rfl : m = l + 1 := by omega
  rw [Nat.add_sub_cancel_left] at first
  exact ⟨List.singleton_inj.1 first, others⟩

theorem Counted.of_nil {l k : Nat} (h : Counted [] l k) : k = l := by
  obtain ⟨le, same⟩ := h
  have length := congrArg List.length same
  rw [List.length_nil, List.length_range'] at length
  omega

section

variable {α β : Type} (l : Label)

theorem counting_bind (x : StateM Label α) (f : α → StateM Label β) :
    (x >>= f) l = f (x l).1 (x l).2 :=
  rfl

theorem counting_pure (a : α) : (pure a : StateM Label α) l = (a, l) :=
  rfl

theorem counting_freshLabel : freshLabel l = (l, l + 1) :=
  rfl

end

mutual
/-- A tree whose labels were given out one after another gets them again. -/
theorem Node.withLabels_plain (n : Node Label) {l k : Label} (h : Counted n.labels l k) :
    n.plain.withLabels l = (n, k) := by
  match n with
  | .absent =>
    obtain rfl := h.of_nil
    rfl
  | .list items =>
    have items := Node.allWithLabels_plain items h
    simp only [Node.plain, Node.withLabels, counting_bind, counting_pure, items]
  | .source first second | .assignment first second | .case first second | .switch first second
  | .loop first second =>
    obtain ⟨m, left, right⟩ := Counted.of_append h
    have left := first.withLabels_plain left
    have right := second.withLabels_plain right
    simp only [Node.plain, Node.withLabels, counting_bind, counting_pure, left, right]
  | .global _ _ _ _ value | .declaration _ _ _ value =>
    obtain ⟨rfl, inside⟩ := Counted.of_cons h
    have inside := value.withLabels_plain inside
    simp only [Node.plain, Node.withLabels, counting_bind, counting_pure,
      counting_freshLabel, inside]
  | .parameter .. | .literal .. =>
    obtain ⟨rfl, inside⟩ := Counted.of_cons h
    obtain rfl := inside.of_nil
    rfl
  | .function _ _ first _ second | .binary _ _ first second =>
    obtain ⟨rfl, inside⟩ := Counted.of_cons h
    obtain ⟨m, left, right⟩ := inside.of_append
    have left := first.withLabels_plain left
    have right := second.withLabels_plain right
    simp only [Node.plain, Node.withLabels, counting_bind, counting_pure,
      counting_freshLabel, left, right]
  | .conditional condition thenStatements elseStatements =>
    obtain ⟨m, first, others⟩ := Counted.of_append h
    obtain ⟨m', second, third⟩ := others.of_append
    have first := condition.withLabels_plain first
    have second := thenStatements.withLabels_plain second
    have third := elseStatements.withLabels_plain third
    simp only [Node.plain, Node.withLabels, counting_bind, counting_pure, first, second,
      third]
  | .expressionStmt inner | .ret inner =>
    have inside := inner.withLabels_plain h
    simp only [Node.plain, Node.withLabels, counting_bind, counting_pure, inside]
  | .group _ inner | .access _ _ inner | .call _ _ inner | .listLiteral _ inner =>
    obtain ⟨rfl, inside⟩ := Counted.of_cons h
    have inside := inner.withLabels_plain inside
    simp only [Node.plain, Node.withLabels, counting_bind, counting_pure,
      counting_freshLabel, inside]

theorem Node.allWithLabels_plain (ns : List (Node Label)) {l k : Label}
    (h : Counted (Node.allLabels ns) l k) :
    Node.allWithLabels (Node.allPlain ns) l = (ns, k) := by
  match ns with
  | [] =>
    obtain rfl := h.of_nil
    rfl
  | n :: rest =>
    obtain ⟨m, first, others⟩ := Counted.of_append h
    have first := n.withLabels_plain first
    have others := Node.allWithLabels_plain rest others
    simp only [Node.allPlain, Node.allWithLabels, counting_bind, counting_pure, first,
      others]
end

end PlcLang
