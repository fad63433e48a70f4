import PlcLang.Proofs.Agreement.Lockstep
import PlcLang.Proofs.Running.Start

namespace PlcLang

/-- What is seen of a program: why it was rejected, or what it printed, noted and came to, with the
values of its globals and the lists in them. -/
inductive Outcome where
  | rejected (f : Fault)
  | ended (output : String) (notes : Array Note) (result : Except Fault Value)
      (globals : List (Key × Option Value)) (lists : Lists)
  | unfinished

/-- The variables of a block and their values. -/
def Store.values (s : Store) (env : Env) : List (Key × Option Value) :=
  (s.block env.block).vars.map fun (key, n) => (key, s.vars[n]?.map (·.value))

def Ending.outcome : Ending → Outcome
  | .rejected f => .rejected f
  | .ran env w result => .ended w.output w.notes result (w.store.values env) w.store.lists
  | .unfinished => .unfinished

/-- How a run in a block ended. -/
def Ending.ofRun (env : Env) : Option (World × Except Fault Value) → Ending
  | none => .unfinished
  | some (w, result) => .ran env w result

section

variable {n : Node Unit} {settings : Settings} {steps : Nat}

/-- The block of a program on its own. -/
def freshBlock : Env :=
  (Session.start.place .fresh).2

theorem run_ending {s : Session} {env : Env} {around : Surroundings} {known : List StaticBlock}
    {tree : Node Label} :
    (s.run settings steps env around known tree).2 = .ofRun env
      (Machine.run settings ⟨tree, s.found⟩ steps (.initial env { store := s.store })) := by
  unfold Session.run
  cases Machine.run settings ⟨tree, s.found⟩ steps (.initial env { store := s.store }) <;> rfl

/-- A program that is checked on its own is rejected, or it runs annotated. -/
theorem perform_checked :
    n.perform settings steps true =
      match ((n.annotated #[]).check 0 []).1 with
      | .error f => .rejected f
      | .ok _ => .ofRun freshBlock (Machine.run settings n.checked steps Machine.fresh) := by
  have perform : n.perform settings steps true =
      ((Session.start.load n).1.perform settings steps .fresh true (n.annotated #[]).tree).2 := rfl
  rw [perform, Session.perform]
  simp only [↓reduceIte]
  split
  · rename_i f rejected
    have rejected : ((n.annotated #[]).check 0 []).1 = .error f := rejected
    rw [rejected]
  · rename_i Γ accepted
    have accepted : ((n.annotated #[]).check 0 []).1 = .ok Γ := accepted
    rw [accepted]
    exact run_ending

/-- A program that is not checked runs without annotations. -/
theorem perform_unchecked :
    n.perform settings steps false =
      .ofRun freshBlock (Machine.run settings (n.annotated #[]) steps Machine.fresh) :=
  run_ending

/-- Globals that are alike have the same values. -/
theorem values_alike {w₁ w₂ : World} {env : Env} (h : w₁.Alike env.block w₂) :
    w₁.store.values env = w₂.store.values env := by
  have value (n : Nat) :
      w₁.store.vars[n]?.map (·.value) = w₂.store.vars[n]?.map (·.value) := by
    have same := congrArg (Option.map Variable.value) (h.vars n)
    rw [Option.map_map, Option.map_map] at same
    exact same
  simp only [Store.values, h.names, value]

/-- Runs that end alike show the same. -/
theorem RunsAlike.outcome {run₁ run₂ : Option (World × Except Fault Value)}
    (h : RunsAlike freshBlock.block run₁ run₂) :
    (Ending.ofRun freshBlock run₁).outcome = (Ending.ofRun freshBlock run₂).outcome := by
  cases h with
  | unfinished => rfl
  | ended same =>
    simp only [Ending.ofRun, Ending.outcome, same.output, same.notes, same.lists,
      values_alike same]

/-- Two ways to run an accepted program show the same. -/
theorem Course.Runs.outcome {c₁ c₂ : Course} {a : Annotated} {ran₁ ran₂ : Annotations}
    {settings₁ settings₂ : Settings} (runs₁ : c₁.Runs a ran₁ settings₁)
    (runs₂ : c₂.Runs a ran₂ settings₂) (debug : settings₁.debug = settings₂.debug)
    (depth : settings₁.depth = settings₂.depth) (steps : Nat) :
    (Ending.ofRun freshBlock
        (Machine.run settings₁ ⟨a.tree, ran₁⟩ steps Machine.fresh)).outcome =
      (Ending.ofRun freshBlock
        (Machine.run settings₂ ⟨a.tree, ran₂⟩ steps Machine.fresh)).outcome := by
  obtain ⟨found₁, program₁, rfl, root₁⟩ := runs₁
  obtain ⟨found₂, program₂, rfl, root₂⟩ := runs₂
  have pair : c₁.Paired c₂ :=
    ⟨found₂.trans found₁.symm, root₂.trans root₁.symm, by rw [program₁, program₂], debug, depth⟩
  have alike : Machine.fresh.Alike c₁.root Machine.fresh :=
    ⟨⟨freshBlock, rfl⟩, .nil, rfl, .refl _⟩
  have ends := (c₁.fresh root₁).run_alike pair (c₂.fresh root₂) alike steps
  rw [root₁, program₁, program₂] at ends
  exact RunsAlike.outcome ends

theorem binding_annotated (label : Label) : ((n.annotated #[]).found.of label).binding = none := by
  rw [n.of_annotated]

end

/-- A checked program shows the same whether the blocks of a loop are one for its condition and all
its rounds, or one for each round. -/
theorem loop_blocks_unseen (n : Node Unit) (settings : Settings) (steps : Nat) :
    (n.perform { settings with loops := .shared } steps true).outcome =
      (n.perform { settings with loops := .perRound } steps true).outcome := by
  rw [perform_checked, perform_checked]
  cases check : ((n.annotated #[]).check 0 []).1 with
  | error f => rfl
  | ok Γ =>
    have accepted := Node.Accepted.checked ⟨Γ, check⟩
    have course (loops : LoopScope) :=
      accepted.course n.checked.found false { settings with loops := loops } ⟨False, False⟩
        (fun _ => rfl) (fun h => by cases h) False.elim False.elim
    obtain ⟨c₁, runs₁, -⟩ := course .shared
    obtain ⟨c₂, runs₂, -⟩ := course .perRound
    exact runs₁.outcome runs₂ rfl rfl steps

/-- An accepted program in which no loop hides a visible name shows the same whether its names are
resolved by what the checker found or by the names alone. -/
theorem annotations_unseen {n : Node Unit} (accepted : n.Accepted)
    (clear : n.checked.tree.HidesNothing []) (settings : Settings) (steps : Nat) :
    (n.perform settings steps true).outcome = (n.perform settings steps false).outcome := by
  rw [perform_checked, perform_unchecked]
  obtain ⟨Γ, check⟩ := accepted
  have accepted := Node.Accepted.checked ⟨Γ, check⟩
  obtain ⟨c₁, runs₁, -⟩ := accepted.course n.checked.found false settings ⟨False, True⟩
    (fun _ => rfl) (fun h => by cases h) False.elim fun _ => clear
  obtain ⟨c₂, runs₂, -⟩ := accepted.course (n.annotated #[]).found true settings ⟨False, True⟩
    binding_annotated (fun _ => ⟨trivial, id⟩) False.elim fun _ => clear
  rw [check]
  exact runs₁.outcome runs₂ rfl rfl steps

/-- The program with a variable in its loop comes to 1 without annotations, too. -/
theorem annotations_unseen_counting :
    Node.counting.Accepted ∧ Node.counting.checked.tree.HidesNothing [] ∧
      (Node.counting.perform {} 100 false).outcome = .ended "" #[] (.ok (.integer 1)) [] #[] := by
  have clear : Node.counting.checked.tree.HidesNothing [] := by
    repeat' first
      | exact trivial
      | decide
      | refine And.intro ?_ ?_
  refine ⟨counting_accepted, clear, ?_⟩
  rw [← annotations_unseen counting_accepted clear]
  rfl

end PlcLang
