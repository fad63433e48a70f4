import PlcLang.Proofs.Agreement.Frames
import PlcLang.Proofs.Running.Points

namespace PlcLang

/-- Two courses of one program, checked once: how names are resolved may differ, and the blocks of
loops. -/
structure Course.Paired (c₁ c₂ : Course) : Prop where
  found : c₂.found = c₁.found
  root : c₂.root = c₁.root
  tree : c₁.program.tree = c₂.program.tree
  debug : c₁.settings.debug = c₂.settings.debug
  depth : c₁.settings.depth = c₂.settings.depth

/-- How two runs of so many steps end alike, if they end. -/
inductive RunsAlike (root : Nat) : Option (World × Except Fault Value) →
    Option (World × Except Fault Value) → Prop where
  | unfinished : RunsAlike root none none
  | ended {w₁ w₂ : World} {result : Except Fault Value} (same : w₁.Alike root w₂) :
      RunsAlike root (some (w₁, result)) (some (w₂, result))

section

variable {c₁ c₂ : Course} {made : Made} {m₁ m₂ : Machine} {env₁ env₂ : Env}

/-- An access stands for the variable made last for its declaration, on both sides. -/
theorem Stage.sameVariable {label : Label} {name : Json} (pair : c₁.Paired c₂)
    (h₁ : Stage c₁ made m₁) (h₂ : Stage c₂ made m₂) (world : m₁.world.Alike c₁.root m₂.world)
    (access₁ : m₁.Accesses label name env₁) (access₂ : m₂.Accesses label name env₂) :
    SameVariable (c₁.situation m₁.frames m₁.calls m₁.world)
      (c₂.situation m₂.frames m₂.calls m₂.world) env₁ env₂ label name := by
  obtain ⟨key₁, b, p₁, isName₁, bound₁, inScope₁, fits₁, rfl⟩ := h₁.accesses access₁
  obtain ⟨key₂, b₂, p₂, isName₂, bound₂, inScope₂, fits₂, rfl⟩ := h₂.accesses access₂
  obtain rfl : b = b₂ := by
    rw [pair.found, bound₁] at bound₂
    exact Option.some.inj bound₂
  obtain ⟨n, x₁, latest₁, hx₁, _, resolves₁⟩ :=
    resolve_eq (s := c₁.situation m₁.frames m₁.calls m₁.world) fits₁ rfl isName₁ inScope₁ bound₁
  obtain ⟨n₂, x₂, latest₂, hx₂, _, resolves₂⟩ :=
    resolve_eq (s := c₂.situation m₂.frames m₂.calls m₂.world) fits₂ rfl isName₂ inScope₂ bound₂
  obtain rfl : n = n₂ := Option.some.inj (latest₁.symm.trans latest₂)
  exact ⟨n, x₁, x₂, world.variable_eq hx₁ hx₂, resolves₁, resolves₂⟩

theorem Stage.sameFunctions (pair : c₁.Paired c₂) (h₁ : Stage c₁ made m₁) (h₂ : Stage c₂ made m₂)
    (world : m₁.world.Alike c₁.root m₂.world) (invokes₁ : m₁.Invokes env₁)
    (invokes₂ : m₂.Invokes env₂) : SameFunctions m₁.world m₂.world env₁ env₂ := by
  intro key arity
  rw [h₁.invokes invokes₁, h₂.invokes invokes₂, world.callables, pair.root]

/-- Machines that do the same make the same variables. -/
theorem Made.after_alike {root : Nat} {found : Annotations} (alike : m₁.Alike root m₂) :
    made.after found m₁ = made.after found m₂ := by
  obtain ⟨control, K₁, calls, w₁⟩ := m₁
  obtain ⟨control₂, K₂, calls₂, w₂⟩ := m₂
  obtain ⟨⟨env, same⟩, frames, same', world⟩ := alike
  simp only at same same' world frames
  subst same same'
  cases control with
  | call n arguments => simp only [Made.after, Control.at, world.functions, world.size]
  | value v | ended | leave v =>
    cases frames with
    | nil => rfl
    | cons first others =>
      obtain ⟨env, rfl⟩ := first
      rename_i frame _ _
      cases frame with
      | global g => cases g <;> simp only [Made.after, Control.at, Frame.at, world.size]
      | _ => simp only [Made.after, Control.at, Frame.at, world.size]
  | _ => rfl

/-- Machines that do the same lead to machines that do the same. -/
theorem Stage.step_alike (pair : c₁.Paired c₂) (h₁ : Stage c₁ made m₁) (h₂ : Stage c₂ made m₂)
    (alike : m₁.Alike c₁.root m₂) :
    (m₁.step c₁.settings c₁.program).Alike c₁.root (m₂.step c₂.settings c₂.program) := by
  have room₁ := h₁.room
  have room₂ := h₂.room
  rw [pair.root] at room₂
  obtain ⟨control, K₁, calls, w₁⟩ := m₁
  obtain ⟨control₂, K₂, calls₂, w₂⟩ := m₂
  obtain ⟨⟨env₂, same⟩, frames, same', world⟩ := alike
  simp only at same same' world frames
  subst same same'
  have behind {K₁ K₂ : List Frame} (frames : FramesAlike K₁ K₂) :
      Situation.Alike c₁.root (c₁.situation K₁ calls w₁) (c₂.situation K₂ calls w₂) :=
    ⟨pair.debug, pair.depth, pair.tree, frames, rfl, world⟩
  have s := behind frames
  cases control with
  | start env => exact s.start
  | globals rest functions env =>
    cases rest with
    | nil => exact s.require rfl fun functions _ => s.go ⟨env, rfl⟩
    | cons g rest => exact s.global
  | functions rest env =>
    obtain rfl := h₁.outside .functions
    cases rest with
    | nil => exact s.go ⟨env₂, rfl⟩
    | cons f rest => exact s.defineFunction rfl room₁ room₂
  | main env =>
    obtain rfl := h₁.outside .main
    simp only [Machine.step, Control.at, Store.findFunction_root, world.callables, pair.tree]
    split
    · exact s.go ⟨env₂, rfl⟩
    · exact s.fail _
  | evaluate e env =>
    refine s.evaluate (fun label name offset he => ?_)
      (h₁.sameFunctions pair h₂ world .first .first)
    subst he
    exact (h₁.sameVariable pair h₂ world .read .read :)
  | execute statements env =>
    refine s.executeAll fun label name offset value rest he => ?_
    subst he
    exact (h₁.sameVariable pair h₂ world .assigned .assigned :)
  | call n arguments => exact s.call n room₁ room₂
  | value v =>
    cases frames with
    | nil => exact .halt world
    | cons first others =>
      obtain ⟨env, rfl⟩ := first
      refine (behind others).resume (fun g rest functions env he => ?_) room₁ room₂
        (fun label name env he => ?_) fun name done rest node env he => ?_
      · subst he
        rw [h₁.outside .global]
      · subst he
        exact ⟨h₁.declares, pair.root ▸ h₂.declares⟩
      · subst he
        exact h₁.sameFunctions pair h₂ world .last .last
  | ended =>
    cases frames with
    | nil => exact .halt world
    | cons first others =>
      obtain ⟨env, rfl⟩ := first
      exact (behind others).proceed
  | leave v =>
    cases frames with
    | nil => exact .halt world
    | cons first others =>
      obtain ⟨env, rfl⟩ := first
      exact (behind others).unwind

/-- Runs of machines that do the same end alike. -/
theorem Stage.run_alike (pair : c₁.Paired c₂) (h₁ : Stage c₁ made m₁) (h₂ : Stage c₂ made m₂)
    (alike : m₁.Alike c₁.root m₂) (steps : Nat) :
    RunsAlike c₁.root (Machine.run c₁.settings c₁.program steps m₁)
      (Machine.run c₂.settings c₂.program steps m₂) := by
  induction steps generalizing made m₁ m₂ with
  | zero => exact .unfinished
  | succ steps ih =>
    have next := h₁.step_alike pair h₂ alike
    have stays₁ := h₁.step
    have stays₂ := h₂.step
    rw [pair.found, ← Made.after_alike alike] at stays₂
    unfold Machine.run
    generalize m₁.step c₁.settings c₁.program = step₁ at *
    generalize m₂.step c₂.settings c₂.program = step₂ at *
    cases next with
    | next same => exact ih stays₁ stays₂ same
    | halt same => exact .ended same

end

end PlcLang
