import PlcLang.Proofs.Agreement
import PlcLang.Proofs.Renaming.Lockstep

namespace PlcLang

/-- What is seen of a program whatever the names of its variables are: what sort of fault it was
rejected for, or what it printed and came to, with the values of its globals in order and the lists
in them. -/
inductive Nameless where
  | rejected (kind : ErrorClass ⊕ Fault)
  | ended (output : String) (result : Except (ErrorClass ⊕ Fault) Value)
      (globals : List (Option Value)) (lists : Lists)
  | unfinished

def Ending.nameless : Ending → Nameless
  | .rejected f => .rejected f.kind
  | .ran env w result =>
    .ended w.output (result.mapError Fault.kind) ((w.store.values env).map (·.2)) w.store.lists
  | .unfinished => .unfinished

section

variable {r : Renaming} {root : Nat} {n : Node Unit} {name : Label → String}

/-- The globals of a program with other names have the same values in the same order. -/
theorem values_renamed {w₁ w₂ : World} {env : Env} (h : w₁.Renamed r env.block w₂) :
    (w₂.store.values env).map (·.2) = (w₁.store.values env).map (·.2) := by
  have value (m : Nat) :
      w₂.store.vars[m]?.map (·.value) = w₁.store.vars[m]?.map (·.value) := by
    have same := congrArg (Option.map Variable.value) (h.numbered m)
    rw [Option.map_map, Option.map_map] at same
    exact same.symm
  have numbered (w : World) : (w.store.values env).map (·.2) =
      ((w.store.block env.block).vars.map (·.2)).map fun m => w.store.vars[m]?.map (·.value) := by
    simp only [Store.values, List.map_map]
    rfl
  rw [numbered, numbered, h.globals]
  exact List.map_congr_left fun m _ => value m

theorem RunsRenamed.nameless {run₁ run₂ : Option (World × Except Fault Value)}
    (h : RunsRenamed r freshBlock.block run₁ run₂) :
    (Ending.ofRun freshBlock run₂).nameless = (Ending.ofRun freshBlock run₁).nameless := by
  cases h with
  | unfinished => rfl
  | ended same results =>
    simp only [Ending.ofRun, Ending.nameless, same.output, same.lists, values_renamed same]
    cases results with
    | ok same => rw [same]
    | @error f₁ f₂ same =>
      have ends : (Except.error f₂ : Except Fault Value).mapError Fault.kind =
          (Except.error f₁ : Except Fault Value).mapError Fault.kind := congrArg Except.error same.symm
      rw [ends]

/-- At the start of a run there are no other names yet. -/
theorem fresh_renamed : Machine.fresh.Renamed r root Machine.fresh := by
  obtain ⟨_, _, f, functions, print⟩ := fresh_store
  refine ⟨rfl, rfl, rfl, rfl, rfl, rfl, ?_, rfl, rfl⟩
  have same : f.rename r = f := by
    obtain ⟨name, arity, types, returns, body⟩ := f
    subst print
    rfl
  simp only [functions, List.map_toArray, List.map_cons, List.map_nil, same]

/-- An accepted program whose variables are given other names, all different, at their declarations
and wherever the checker resolved an access to them: it is accepted, its expressions have the same
types, and it shows the same. -/
theorem renaming_unseen (accepted : n.Accepted) (distinct : n.Distinct name) :
    (n.renamed name).Accepted ∧
      (n.renamed name).checked.tree = n.checked.tree.rename (n.renaming name) ∧
      (∀ label, ((n.renamed name).checked.found.of label).type =
        (n.checked.found.of label).type) ∧
      ∀ settings steps, ((n.renamed name).perform settings steps true).nameless =
        (n.perform settings steps true).nameless := by
  obtain ⟨Γ, check⟩ := accepted
  obtain ⟨check', checked⟩ := check_renamed check distinct
  refine ⟨⟨_, check'⟩, by rw [checked], fun label => ?_, fun settings steps => ?_⟩
  · rw [checked, Annotations.of_rename]
    rfl
  · have course {p : Node Unit} (accepted : p.Accepted) :=
      accepted.checked.course p.checked.found false settings ⟨False, False⟩ (fun _ => rfl)
        (fun h => by cases h) False.elim False.elim
    obtain ⟨c₁, runs₁, byId, -⟩ := course ⟨Γ, check⟩
    obtain ⟨c₂, runs₂, -, -⟩ := course ⟨_, check'⟩
    have pair : c₁.Renamed (n.renaming name) c₂ := by
      refine ⟨runs₂.settings.trans runs₁.settings.symm, runs₂.root.trans runs₁.root.symm, ?_, ?_,
        byId⟩
      · rw [runs₁.program, runs₂.program, checked]
      · rw [runs₁.program, runs₂.program, checked]
    have ends := (c₁.fresh runs₁.root).run_renamed pair (c₂.fresh runs₂.root) fresh_renamed steps
    rw [runs₁.program, runs₁.settings, runs₁.root, runs₂.program, runs₂.settings] at ends
    rw [perform_checked, perform_checked, check, check']
    exact RunsRenamed.nameless ends

/-- In the program with a variable in its loop the two variables change names. -/
theorem renaming_unseen_counting :
    Node.counting.Accepted ∧
      Node.counting.Distinct (fun label => if label = 1 then "m" else "n") ∧
      (Node.counting.renamed fun label => if label = 1 then "m" else "n").Accepted ∧
      ((Node.counting.renamed fun label => if label = 1 then "m" else "n").perform {} 100
        true).nameless = .ended "" (.ok (.integer 1)) [] #[] := by
  have distinct : Node.counting.Distinct (fun label => if label = 1 then "m" else "n") := by
    unfold Node.Distinct
    decide
  obtain ⟨accepted, _, _, same⟩ := renaming_unseen counting_accepted distinct
  refine ⟨counting_accepted, distinct, accepted, ?_⟩
  rw [same]
  rfl

end

end PlcLang
