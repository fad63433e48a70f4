import PlcLang.Proofs.Renaming.Rules
import PlcLang.Proofs.Running.Points

namespace PlcLang

namespace Situation.Renamed

variable {r : Renaming} {root : Nat} {s₁ s₂ : Situation} {env : Env} {v : Value}

/-- A global has its value. -/
theorem resumeGlobal {g functions : Node Label} {rest : List (Node Label)}
    (h : s₁.Renamed r root s₂) (here : env.block = root)
    (room : root < s₁.world.store.blocks.size) :
    (s₁.resume v (.global g rest functions env)).Renamed r root
      (s₂.resume v (Frame.rename r (.global g rest functions env))) := by
  subst here
  cases g with
  | global label name isMutable typeName value =>
    simp only [Frame.rename, Node.rename, Situation.resume, h.binding]
    rcases h.world.addFree room with
      ⟨f, stops, naming⟩ | ⟨f, stops, naming⟩ | ⟨u₁, u₂, added₁, added₂, world⟩
    · rw [stops]
      exact .first naming
    · rw [stops]
      exact .second naming
    · rw [added₁, added₂]
      exact (h.withWorld world).notingText fun t₁ t₂ _ h => h.go rfl
  | _ => exact h.fail rfl

/-- A variable is declared. -/
theorem resumeDeclaration {label : Label} {name : Json} (h : s₁.Renamed r root s₂)
    (inside : env.block ≠ root) :
    (s₁.resume v (.declaration label name env)).Renamed r root
      (s₂.resume v (Frame.rename r (.declaration label name env))) := by
  have named : (r.declared label).key = .ok (.text (r.name label)) := rfl
  simp only [Frame.rename, Situation.resume, h.binding, named]
  cases isName : name.key with
  | error f => exact .first (naming_of_key isName)
  | ok key =>
    exact (h.withWorld (h.world.addInside inside)).notingText fun t₁ t₂ _ h => h.go rfl

theorem resumeAssignment {n : Nat} {offset receiver node : Node Label}
    (h : s₁.Renamed r root s₂) :
    (s₁.resume v (.assignment n offset receiver node env)).Renamed r root
      (s₂.resume v (Frame.rename r (.assignment n offset receiver node env))) := by
  have same := h.world.numbered n
  simp only [Frame.rename, Situation.resume, Node.isAbsent_rename]
  cases h₁ : s₁.world.store.vars[n]? with
  | none =>
    cases h₂ : s₂.world.store.vars[n]? with
    | none => exact h.go rfl
    | some x₂ => simp [h₁, h₂] at same
  | some x₁ =>
    cases h₂ : s₂.world.store.vars[n]? with
    | none => simp [h₁, h₂] at same
    | some x₂ =>
      rw [h₁, h₂] at same
      obtain ⟨_, isMutable, value⟩ := Variable.unnamed_eq (Option.some.inj same)
      simp only [isMutable, value]
      split
      · exact h.fail rfl
      · split
        · exact (h.withWorld (h.world.setValue n)).go rfl
        · exact h.requireList fun list => h.await rfl rfl

theorem resumeCondition {condition statements : Node Label} (h : s₁.Renamed r root s₂) :
    (s₁.resume v (.condition condition statements env)).Renamed r root
      (s₂.resume v (Frame.rename r (.condition condition statements env))) := by
  refine h.requireBoolean fun b => h.notingText fun t₁ t₂ _ h => ?_
  cases b with
  | false => exact h.go rfl
  | true =>
    simp only [↓reduceIte, h.settings]
    cases t₁.settings.loops with
    | shared => exact ((h.withWorld h.world).behind rfl).execute _
    | perRound =>
      obtain ⟨inner, world⟩ := h.world.openBlock env
      simp only [inner]
      exact ((h.withWorld world).behind rfl).execute _

/-- Left by a call. -/
theorem leaveCall (h : s₁.Renamed r root s₂) (v : Value) :
    ({ s₁ with calls := s₁.calls - 1 }.go (.value v)).Renamed r root
      ({ s₂ with calls := s₂.calls - 1 }.go (.value v)) :=
  .next ⟨rfl, h.frames, congrArg (· - 1) h.calls, h.world⟩

theorem resume {frame : Frame} (h : s₁.Renamed r root s₂)
    (hg : ∀ g rest functions env, frame = .global g rest functions env → env.block = root)
    (room : root < s₁.world.store.blocks.size)
    (hd : ∀ label name env, frame = .declaration label name env → env.block ≠ root) :
    (s₁.resume v frame).Renamed r root (s₂.resume v (frame.rename r)) := by
  cases frame with
  | global g rest functions env => exact h.resumeGlobal (hg _ _ _ _ rfl) room
  | left op right node env => exact h.await rfl rfl
  | right op left node =>
    refine h.require (R := Eq) ?_ fun v _ same => h.go (by rw [same]; rfl)
    rw [h.world.lists, h.settings]
    exact apply_concur ..
  | test decisive left right env =>
    refine h.requireBoolean fun b => ?_
    split
    · exact h.go rfl
    · exact h.await rfl rfl
  | boolean e => exact h.requireBoolean fun b => h.go rfl
  | index list node =>
    simp only [Frame.rename, Situation.resume]
    refine h.requireIndex fun i => ?_
    rw [h.world.lists]
    exact h.go rfl
  | argument name done rest node env =>
    cases rest with
    | nil => exact h.invoke name _ _
    | cons e rest => exact h.await rfl rfl
  | element done rest env =>
    cases rest with
    | nil => exact h.newList _
    | cons e rest => exact h.await rfl rfl
  | declaration label name env => exact h.resumeDeclaration (hd _ _ _ rfl)
  | assignment n offset receiver node env => exact h.resumeAssignment
  | target list value receiver =>
    simp only [Frame.rename, Situation.resume]
    refine h.requireIndex fun i => ?_
    simp only [Store.setElement, h.world.lists]
    exact (h.withWorld (h.world.setLists _)).go rfl
  | branch condition thenStatements elseStatements env =>
    refine h.requireBoolean fun b => h.notingText fun t₁ t₂ _ h => ?_
    cases b with
    | false => exact h.enter elseStatements
    | true => exact h.enter thenStatements
  | subject cases env =>
    refine h.require (items_concur cases) fun cases _ same => ?_
    subst same
    exact h.select
  | case subject default branch rest env =>
    refine h.require (R := Eq) ?_ fun same _ equal => ?_
    · rw [h.world.lists, h.settings]
      exact .refl _
    · subst equal
      split
      · exact h.take "case" branch
      · exact h.select
  | condition condition statements env => exact h.resumeCondition
  | activation n => exact h.leaveCall v
  | discard | result | round | rest => exact h.go rfl

theorem proceed {frame : Frame} (h : s₁.Renamed r root s₂) :
    (s₁.proceed frame).Renamed r root (s₂.proceed (frame.rename r)) := by
  cases frame with
  | activation n => exact h.leaveCall .nil
  | round => exact h.await rfl rfl
  | _ => exact h.go rfl

theorem unwind {frame : Frame} (h : s₁.Renamed r root s₂) :
    (s₁.unwind v frame).Renamed r root (s₂.unwind v (frame.rename r)) := by
  cases frame with
  | activation n => exact h.leaveCall v
  | _ => exact h.go rfl

end Situation.Renamed

/-- Two runs of so many steps that do the same, the second under other names, if they end. -/
inductive RunsRenamed (r : Renaming) (root : Nat) : Option (World × Except Fault Value) →
    Option (World × Except Fault Value) → Prop where
  | unfinished : RunsRenamed r root none none
  | ended {w₁ w₂ : World} {result₁ result₂ : Except Fault Value} (same : w₁.Renamed r root w₂)
      (results : Concur Eq result₁ result₂) :
      RunsRenamed r root (some (w₁, result₁)) (some (w₂, result₂))

/-- The second course is that of the program with the other names. -/
structure Course.Renamed (r : Renaming) (c₁ c₂ : Course) : Prop where
  settings : c₂.settings = c₁.settings
  root : c₂.root = c₁.root
  tree : c₂.program.tree = c₁.program.tree.rename r
  found : c₂.program.found = c₁.program.found.rename r
  byId : c₁.byName = false

theorem Fault.Tolerated.not_naming {D : Demands} {f : Fault} (h : f.Tolerated D) : ¬ f.Naming := by
  rintro (duplicate | rfl)
  · cases f with
    | problem p =>
      obtain ⟨cause, subject⟩ := p
      cases cause <;> simp_all [Fault.Tolerated, Fault.kind, Cause.errorClass]
    | _ => cases duplicate
  · simp [Fault.Tolerated] at h

section

variable {r : Renaming} {c₁ c₂ : Course} {made₁ made₂ : Made} {m₁ m₂ : Machine}

/-- The machine of a program and that of the program with the other names lead to such machines
again. -/
theorem Stage.step_renamed (pair : c₁.Renamed r c₂) (h : Stage c₁ made₁ m₁)
    (renamed : m₁.Renamed r c₁.root m₂) :
    (m₁.step c₁.settings c₁.program).Renamed r c₁.root (m₂.step c₂.settings c₂.program) := by
  have room := h.room
  obtain ⟨control, K₁, calls, w₁⟩ := m₁
  obtain ⟨control₂, K₂, calls₂, w₂⟩ := m₂
  obtain ⟨same, frames, same', world⟩ := renamed
  simp only at same same' world frames
  subst same same' frames
  have behind (K : List Frame) : Situation.Renamed r c₁.root (c₁.situation K calls₂ w₁)
      (c₂.situation (K.map (Frame.rename r)) calls₂ w₂) :=
    ⟨pair.settings, pair.tree, pair.found, rfl, rfl, world⟩
  have s := behind K₁
  have bound {label : Label} {b : Binding} (found : (c₁.found.of label).binding = some b) :
      (Situation.annotation (c₁.situation K₁ calls₂ w₁) label).binding = some b := by
    change (c₁.program.found.of label).binding = some b
    rw [c₁.bindings, pair.byId]
    exact found
  cases control with
  | start env => exact s.start
  | globals rest functions env =>
    cases rest with
    | nil =>
      refine s.require (items_concur functions) fun functions _ same => ?_
      subst same
      exact s.go rfl
    | cons g rest => exact s.global
  | functions rest env =>
    cases rest with
    | nil => exact s.go rfl
    | cons f rest => exact s.defineFunction
  | main env =>
    simp only [Machine.step, Control.rename, world.findFunction]
    cases w₁.store.findFunction env (.text "main") 0 with
    | none => exact s.fail rfl
    | some n => exact s.go rfl
  | evaluate e env =>
    refine s.evaluate fun label name offset he => ?_
    subst he
    obtain ⟨_, b, _, _, found, _⟩ := h.accesses .read
    exact ⟨b, bound found⟩
  | execute statements env =>
    refine s.executeAll fun label name offset value rest he => ?_
    subst he
    obtain ⟨_, b, _, _, found, _⟩ := h.accesses .assigned
    exact ⟨b, bound found⟩
  | call n arguments => exact s.call n room
  | value v =>
    cases K₁ with
    | nil => exact .halt world (.ok rfl)
    | cons frame K =>
      refine (behind K).resume (fun g rest functions env he => ?_) room fun label name env he => ?_
      · subst he
        rw [h.outside .global]
      · subst he
        exact h.declares
  | ended =>
    cases K₁ with
    | nil => exact .halt world (.ok rfl)
    | cons frame K => exact (behind K).proceed
  | leave v =>
    cases K₁ with
    | nil => exact .halt world (.ok rfl)
    | cons frame K => exact (behind K).unwind

/-- Runs of the two programs end in the same way. No name is ever in the way of either. -/
theorem Stage.run_renamed (pair : c₁.Renamed r c₂) (h₁ : Stage c₁ made₁ m₁)
    (h₂ : Stage c₂ made₂ m₂) (renamed : m₁.Renamed r c₁.root m₂) (steps : Nat) :
    RunsRenamed r c₁.root (Machine.run c₁.settings c₁.program steps m₁)
      (Machine.run c₂.settings c₂.program steps m₂) := by
  induction steps generalizing made₁ made₂ m₁ m₂ with
  | zero => exact .unfinished
  | succ steps ih =>
    have next := h₁.step_renamed pair renamed
    have stays₁ := h₁.step
    have stays₂ := h₂.step
    unfold Machine.run
    generalize m₁.step c₁.settings c₁.program = step₁ at *
    generalize m₂.step c₂.settings c₂.program = step₂ at *
    cases next with
    | next same => exact ih stays₁ stays₂ same
    | halt same results => exact .ended same results
    | first naming => exact ((stays₁ _ rfl).not_naming naming).elim
    | second naming => exact ((stays₂ _ rfl).not_naming naming).elim

end

end PlcLang
