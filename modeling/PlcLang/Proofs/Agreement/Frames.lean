import PlcLang.Proofs.Agreement.Rules

namespace PlcLang

namespace Situation.Alike

variable {root : Nat} {s₁ s₂ : Situation} {env env₁ env₂ : Env} {v : Value}

/-- A global has its value. -/
theorem resumeGlobal {g functions : Node Label} {rest : List (Node Label)} (h : s₁.Alike root s₂)
    (hr : env.block = root) (room₁ : root < s₁.world.store.blocks.size)
    (room₂ : root < s₂.world.store.blocks.size) :
    (s₁.resume v (.global g rest functions env)).Alike root
      (s₂.resume v (.global g rest functions env)) := by
  subst hr
  cases g with
  | global label name isMutable typeName value =>
    simp only [Situation.resume]
    cases isName : name.key with
    | error f =>
      simp only [World.addFree, isName]
      exact h.fail f
    | ok key =>
      have taken : s₁.world.store.taken env key = s₂.world.store.taken env key := by
        simp only [Store.taken, h.world.names]
      rw [World.addFree_eq isName, World.addFree_eq isName, taken]
      cases s₂.world.store.taken env key with
      | true => exact h.fail _
      | false =>
        simp only [Bool.false_eq_true, ↓reduceIte, Situation.require, Step.require]
        refine (h.withWorld (h.world.addGlobal room₁ room₂)).notingText fun t₁ t₂ _ _ h => ?_
        exact h.go ⟨env, rfl⟩
  | _ => exact h.fail _

/-- A variable is declared. -/
theorem resumeDeclaration {label : Label} {name : Json} (h : s₁.Alike root s₂)
    (h₁ : env₁.block ≠ root) (h₂ : env₂.block ≠ root) :
    (s₁.resume v (.declaration label name env₁)).Alike root
      (s₂.resume v (.declaration label name env₂)) := by
  refine h.require rfl fun key _ => ?_
  refine (h.withWorld (h.world.add h₁ h₂)).notingText fun t₁ t₂ _ _ h => ?_
  exact h.go ⟨env₂, rfl⟩

theorem resumeAssignment {n : Nat} {offset receiver node : Node Label} (h : s₁.Alike root s₂) :
    (s₁.resume v (.assignment n offset receiver node env₁)).Alike root
      (s₂.resume v (.assignment n offset receiver node env₂)) := by
  have same := h.world.vars n
  simp only [Situation.resume]
  cases h₁ : s₁.world.store.vars[n]? with
  | none =>
    cases h₂ : s₂.world.store.vars[n]? with
    | none => exact h.go ⟨env₂, rfl⟩
    | some x₂ => simp [h₁, h₂] at same
  | some x₁ =>
    cases h₂ : s₂.world.store.vars[n]? with
    | none => simp [h₁, h₂] at same
    | some x₂ =>
      obtain ⟨name, isMutable, value⟩ := Variable.bare_eq (h.world.variable_eq h₁ h₂)
      simp only [name, isMutable, value]
      split
      · exact h.fail _
      · split
        · exact (h.withWorld (h.world.setValue n)).go ⟨env₂, rfl⟩
        · exact h.requireList fun list => h.await ⟨env₂, rfl⟩ ⟨env₂, rfl⟩

theorem resumeCondition {condition statements : Node Label} (h : s₁.Alike root s₂) :
    (s₁.resume v (.condition condition statements env₁)).Alike root
      (s₂.resume v (.condition condition statements env₂)) := by
  refine h.requireBoolean fun b => h.notingText fun t₁ t₂ _ _ h => ?_
  cases b with
  | false => exact h.go ⟨env₂, rfl⟩
  | true =>
    -- Either side may open a block for the round.
    cases t₁.settings.loops <;> cases t₂.settings.loops
    · exact ((h.withWorld h.world).behind ⟨_, rfl⟩).execute _
    · exact ((h.withWorld (h.world.openRight env₂)).behind ⟨_, rfl⟩).execute _
    · exact ((h.withWorld (h.world.openLeft env₁)).behind ⟨_, rfl⟩).execute _
    · exact ((h.withWorld ((h.world.openLeft env₁).openRight env₂)).behind ⟨_, rfl⟩).execute _

theorem resumeCase {subject : Value} {default : Option (Node Label)} {branch : Node Label}
    {rest : List (Node Label)} (h : s₁.Alike root s₂) :
    (s₁.resume v (.case subject default branch rest env₁)).Alike root
      (s₂.resume v (.case subject default branch rest env₂)) := by
  refine h.require (by rw [h.world.lists, h.depth]) fun same _ => ?_
  split
  · exact h.take "case" branch
  · exact h.select

/-- Left by a call. -/
theorem leaveCall (h : s₁.Alike root s₂) (v : Value) :
    ({ s₁ with calls := s₁.calls - 1 }.go (.value v)).Alike root
      ({ s₂ with calls := s₂.calls - 1 }.go (.value v)) :=
  .next ⟨⟨⟨root, []⟩, rfl⟩, h.frames, congrArg (· - 1) h.calls, h.world⟩

theorem resume {frame : Frame} (h : s₁.Alike root s₂)
    (hg : ∀ g rest functions env, frame = .global g rest functions env → env.block = root)
    (room₁ : root < s₁.world.store.blocks.size) (room₂ : root < s₂.world.store.blocks.size)
    (hd : ∀ label name env₁, frame = .declaration label name env₁ →
      env₁.block ≠ root ∧ env₂.block ≠ root)
    (hf : ∀ name done rest node env₁, frame = .argument name done rest node env₁ →
      SameFunctions s₁.world s₂.world env₁ env₂) :
    (s₁.resume v frame).Alike root (s₂.resume v (frame.at env₂)) := by
  have go (control : Control) (hc : control.at env₂ = control) :
      (s₁.go control).Alike root (s₂.go control) := h.go ⟨env₂, hc.symm⟩
  cases frame with
  | global g rest functions env => exact h.resumeGlobal (hg _ _ _ _ rfl) room₁ room₂
  | left op right node env => exact h.await ⟨env₂, rfl⟩ ⟨env₂, rfl⟩
  | right op left node =>
    refine h.require ?_ fun v _ => go _ rfl
    rw [h.world.lists, h.depth]
  | test decisive left right env =>
    refine h.requireBoolean fun b => ?_
    split
    · exact go _ rfl
    · exact h.await ⟨env₂, rfl⟩ ⟨env₂, rfl⟩
  | boolean e => exact h.requireBoolean fun b => go _ rfl
  | index list node =>
    simp only [Frame.at, Situation.resume]
    refine h.requireIndex fun i => ?_
    rw [h.world.lists]
    exact go _ rfl
  | argument name done rest node env =>
    cases rest with
    | nil => exact h.invoke (hf _ _ _ _ _ rfl) name node
    | cons e rest => exact h.await ⟨env₂, rfl⟩ ⟨env₂, rfl⟩
  | element done rest env =>
    cases rest with
    | nil => exact h.newList _
    | cons e rest => exact h.await ⟨env₂, rfl⟩ ⟨env₂, rfl⟩
  | declaration label name env =>
    obtain ⟨h₁, h₂⟩ := hd _ _ _ rfl
    exact h.resumeDeclaration h₁ h₂
  | assignment n offset receiver node env => exact h.resumeAssignment
  | target list value receiver =>
    simp only [Frame.at, Situation.resume]
    refine h.requireIndex fun i => ?_
    simp only [Store.setElement, h.world.lists]
    exact (h.withWorld (h.world.setLists _)).go ⟨env₂, rfl⟩
  | branch condition thenStatements elseStatements env =>
    refine h.requireBoolean fun b => h.notingText fun t₁ t₂ _ _ h => ?_
    exact h.enter _
  | subject cases env => exact h.require rfl fun cases _ => h.select
  | case subject default branch rest env => exact h.resumeCase
  | condition condition statements env => exact h.resumeCondition
  | activation n => exact h.leaveCall v
  | discard | result | round | rest => exact go _ rfl

theorem proceed {frame : Frame} (h : s₁.Alike root s₂) :
    (s₁.proceed frame).Alike root (s₂.proceed (frame.at env₂)) := by
  cases frame with
  | activation n => exact h.leaveCall .nil
  | round => exact h.await ⟨env₂, rfl⟩ ⟨env₂, rfl⟩
  | _ => exact h.go ⟨env₂, rfl⟩

theorem unwind {frame : Frame} (h : s₁.Alike root s₂) :
    (s₁.unwind v frame).Alike root (s₂.unwind v (frame.at env₂)) := by
  cases frame with
  | activation n => exact h.leaveCall v
  | _ => exact h.go ⟨env₂, rfl⟩

end Situation.Alike

end PlcLang
