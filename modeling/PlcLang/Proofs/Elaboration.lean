import PlcLang.Proofs.Elaboration.Annotated
import PlcLang.Proofs.Elaboration.Complete
import PlcLang.Proofs.Elaboration.Sound
import PlcLang.Proofs.Elaboration.Unique
import PlcLang.Proofs.Running.Start

namespace PlcLang

/-- A tree is well-typed on its own, and this is what the rules find of its nodes. -/
def Node.Elaborates (n : Node Unit) (e : Node Annotation) : Prop :=
  ElaboratesProgram 0 (n.annotated #[]).tree e

/-- A tree with what the checker finds of its nodes on its own. -/
def Node.elaborated (n : Node Unit) : Node Annotation :=
  n.checked.tree.map n.checked.found.of

theorem Node.Accepted.elaborates {n : Node Unit} (accepted : n.Accepted) :
    n.Elaborates n.elaborated := by
  obtain ⟨C, check⟩ := accepted
  obtain ⟨nodup, room⟩ := n.annotated_labels #[]
  have gives : ((n.annotated #[]).tree.checkProgram 0 []).Gives (n.annotated #[]).found C
      n.checked.found := Prod.ext check rfl
  exact elaboratesProgram_of_check gives nodup room fun label _ => n.of_annotated label

theorem Node.Elaborates.accepted {n : Node Unit} {e : Node Annotation} (h : n.Elaborates e) :
    n.Accepted := by
  obtain ⟨C, found, gives⟩ := ElaboratesProgram.checks h (n.annotated #[]).found
  exact ⟨C, congrArg Prod.fst gives⟩

/-- The checker accepts the programs that are well-typed by the rules, and no others. What it finds
of each node is what the rules find, which is one thing only: the type of each expression, and what
each name stands for or declares. The tree is otherwise as before. Nothing is left out, unless some
other node stands for a parameter. -/
theorem checker_decides (n : Node Unit) :
    (n.Accepted ↔ ∃ e, n.Elaborates e) ∧
      ∀ e, n.Elaborates e → n.elaborated = e ∧ e.plain = n ∧
        (n.Every Node.TakesParameters → e.Every Node.Complete) := by
  refine ⟨⟨fun accepted => ⟨_, accepted.elaborates⟩, fun ⟨_, elaborates⟩ => elaborates.accepted⟩,
    fun e elaborates => ?_⟩
  have plain : (n.annotated #[]).tree.plain = n := n.plain_withLabels _
  obtain rfl : n.elaborated = e := elaborates.accepted.elaborates.unique elaborates
  refine ⟨rfl, (Node.plain_map _ _).trans plain, fun only => elaborates.complete ?_⟩
  rw [← plain] at only
  exact (only.ofPlain).imp (fun _ => Node.TakesParameters.ofPlain)

/-- A program that passes an element of a global list on. -/
def Node.passing : Node Unit :=
  let access (name : String) (offset : Node Unit) : Node Unit := .access () (.string name) offset
  let list : Node Unit := .listLiteral () (.list [.literal () (.integer 1), .literal () .nil])
  let same : Node Unit :=
    .function () (.string "same") (.list [.parameter () (.string "n") (.string "Integer")])
      (.string "Integer") (.list [.ret (access "n" .absent)])
  let argument : Node Unit := access "ns" (.literal () (.integer 0))
  let main : Node Unit :=
    .function () (.string "main") (.list []) .null
      (.list [.expressionStmt (.call () (.string "same") (.list [argument]))])
  .source (.list [.global () (.string "ns") false .null list]) (.list [same, main])

theorem checker_decides_passing :
    Node.passing.Every Node.TakesParameters ∧
      ∃ e, Node.passing.Elaborates e ∧ Node.passing.elaborated = e ∧ e.plain = Node.passing ∧
        e.Every Node.Complete := by
  have only : Node.passing.Every Node.TakesParameters := by
    simp [Node.passing, Node.Every, Node.EveryOne, Node.TakesParameters, Node.IsParameter.intro]
  obtain ⟨decides, finds⟩ := checker_decides Node.passing
  obtain ⟨e, elaborates⟩ := decides.1 ⟨_, rfl⟩
  obtain ⟨same, plain, complete⟩ := finds e elaborates
  exact ⟨only, e, elaborates, same, plain, complete only⟩

end PlcLang
