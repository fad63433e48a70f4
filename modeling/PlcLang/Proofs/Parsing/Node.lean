import PlcLang.Proofs.Parsing.Shape
import PlcLang.Proofs.Tree.Parts

/-! The nodes of the tree of a program. -/

namespace PlcLang

/-- What the tree of a program has for a node. -/
def Node.Worded (W : Wording) : Node Unit → Prop
  | .literal _ value => W.literal value
  | .binary _ op _ _ => op ∈ Operator.all
  | .conditional _ _ elseStatements => elseStatements.isAbsent = false
  | .global _ name _ typeName _ | .parameter _ name typeName | .function _ name _ typeName _
  | .declaration _ name typeName _ =>
    (∃ text, name = .string text) ∧ ∃ type, typeName = optionalName type
  | .access _ name _ | .call _ name _ => ∃ text, name = .string text
  | _ => True

variable {W : Wording}

mutual
theorem Expr.worded : (e : Expr) → e.Shaped W → e.toNode.Every (Node.Worded W)
  | .literal _, shaped => shaped
  | .group inner, shaped => ⟨trivial, inner.worded shaped⟩
  | .binary _ left right, ⟨known, _, _, shapedLeft, shapedRight⟩ =>
    ⟨known, left.worded shapedLeft, right.worded shapedRight⟩
  | .access _ none, _ => ⟨⟨_, rfl⟩, trivial⟩
  | .access _ (some offset), ⟨_, shaped⟩ => ⟨⟨_, rfl⟩, offset.worded shaped⟩
  | .call _ arguments, ⟨_, shaped⟩ => ⟨⟨_, rfl⟩, trivial, Expr.allWorded arguments shaped⟩
  | .list elements, shaped => ⟨trivial, trivial, Expr.allWorded elements shaped⟩

theorem Expr.allWorded :
    (es : List Expr) → Expr.AllShaped W es → Node.EveryOne (Node.Worded W) (Expr.toNodes es)
  | [], _ => trivial
  | e :: rest, ⟨first, others⟩ => ⟨e.worded first, Expr.allWorded rest others⟩
end

theorem Expr.optionalWorded {value : Option Expr} (shaped : ∀ e ∈ value, e.Shaped W) :
    (Expr.optionalNode value).Every (Node.Worded W) := by
  cases value with
  | none => exact trivial
  | some e => exact e.worded (shaped e rfl)

mutual
theorem Stmt.worded : (s : Stmt) → s.Shaped W → s.toNode.Every (Node.Worded W)
  | .expression e, shaped => ⟨trivial, e.worded shaped⟩
  | .declaration _ _ _, ⟨_, _, shaped⟩ => ⟨⟨⟨_, rfl⟩, _, rfl⟩, Expr.optionalWorded shaped⟩
  | .assignment receiver value, ⟨first, second⟩ =>
    ⟨trivial, receiver.worded first, value.worded second⟩
  | .conditional condition thenBody elseBody, ⟨first, second, third⟩ =>
    ⟨rfl, condition.worded first, ⟨trivial, Stmt.allWorded thenBody second⟩, trivial,
      Stmt.allWorded elseBody third⟩
  | .switch condition cases, ⟨first, second⟩ =>
    ⟨trivial, condition.worded first, trivial, Case.allWorded cases second⟩
  | .loop condition body, ⟨first, second⟩ =>
    ⟨trivial, condition.worded first, trivial, Stmt.allWorded body second⟩
  | .ret value, shaped => ⟨trivial, value.worded shaped⟩

theorem Stmt.allWorded :
    (ss : List Stmt) → Stmt.AllShaped W ss → Node.EveryOne (Node.Worded W) (Stmt.toNodes ss)
  | [], _ => trivial
  | s :: rest, ⟨first, others⟩ => ⟨s.worded first, Stmt.allWorded rest others⟩

theorem Case.allWorded :
    (cs : List Case) → Case.AllShaped W cs → Node.EveryOne (Node.Worded W) (Case.toNodes cs)
  | [], _ => trivial
  | .mk (some value) body :: rest, ⟨first, second, others⟩ =>
    ⟨⟨trivial, value.worded first, trivial, Stmt.allWorded body second⟩,
      Case.allWorded rest others⟩
  | .mk none body :: _, ⟨shaped, last⟩ =>
    ⟨⟨trivial, trivial, trivial, Stmt.allWorded body shaped⟩, by
      subst last
      exact trivial⟩
end

theorem everyOne_map {α β : Type} {p : Node β → Prop} {f : α → Node β} {l : List α}
    (h : ∀ a ∈ l, (f a).Every p) : Node.EveryOne p (l.map f) := by
  induction l with
  | nil => exact trivial
  | cons a l ih => exact ⟨h a (by simp), ih fun b hb => h b (by simp [hb])⟩

/-- The tree of a program of the shape has nodes of the wording only. -/
theorem Program.Shaped.worded {p : Program} (shaped : p.Shaped W) :
    p.toNode.Every (Node.Worded W) := by
  refine ⟨trivial, ⟨trivial, everyOne_map ?_⟩, trivial, everyOne_map ?_⟩
  · intro g hg
    exact ⟨⟨⟨_, rfl⟩, some _, rfl⟩, Expr.optionalWorded (shaped.globals g hg).value⟩
  · intro f hf
    have parameters : Node.EveryOne (Node.Worded W) (f.parameters.map Parameter.toNode) :=
      everyOne_map fun _ _ => ⟨⟨_, rfl⟩, some _, rfl⟩
    exact ⟨⟨⟨_, rfl⟩, _, rfl⟩, ⟨trivial, parameters⟩, trivial,
      Stmt.allWorded f.body (shaped.functions f hf).body⟩

end PlcLang
