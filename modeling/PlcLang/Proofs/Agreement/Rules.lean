import PlcLang.Proofs.Agreement.Alike

namespace PlcLang

/-- A name stands for the same variable on both sides. -/
def SameVariable (s₁ s₂ : Situation) (env₁ env₂ : Env) (label : Label) (name : Json) : Prop :=
  ∃ (n : Nat) (x₁ x₂ : Variable), x₁.bare = x₂.bare ∧
    (∀ node k, s₁.resolve env₁ (s₁.annotation label).binding name node k = k n x₁) ∧
    ∀ node k, s₂.resolve env₂ (s₂.annotation label).binding name node k = k n x₂

/-- A name stands for the same function on both sides. -/
def SameFunctions (w₁ w₂ : World) (env₁ env₂ : Env) : Prop :=
  ∀ key arity, w₁.store.findFunction env₁ key arity = w₂.store.findFunction env₂ key arity

namespace Situation.Alike

variable {root : Nat} {s₁ s₂ : Situation} {env₁ env₂ : Env} {v : Value}
  {w₁ w₂ : World}

theorem withWorld (h : s₁.Alike root s₂) (hw : w₁.Alike root w₂) :
    (s₁.withWorld w₁).Alike root (s₂.withWorld w₂) :=
  ⟨h.debug, h.depth, h.tree, h.frames, h.calls, hw⟩

theorem behind {frame₁ frame₂ : Frame} (h : s₁.Alike root s₂)
    (hf : ∃ env, frame₂ = frame₁.at env) : (s₁.behind frame₁).Alike root (s₂.behind frame₂) :=
  ⟨h.debug, h.depth, h.tree, .cons hf h.frames, h.calls, h.world⟩

theorem fail (h : s₁.Alike root s₂) (f : Fault) : (s₁.fail f).Alike root (s₂.fail f) :=
  .halt h.world

theorem go {control₁ control₂ : Control} (h : s₁.Alike root s₂)
    (hc : control₁.Alike control₂) : (s₁.go control₁).Alike root (s₂.go control₂) :=
  .next ⟨hc, h.frames, h.calls, h.world⟩

theorem await {frame₁ frame₂ : Frame} {control₁ control₂ : Control} (h : s₁.Alike root s₂)
    (hf : ∃ env, frame₂ = frame₁.at env) (hc : control₁.Alike control₂) :
    (s₁.await frame₁ control₁).Alike root (s₂.await frame₂ control₂) :=
  .next ⟨hc, .cons hf h.frames, h.calls, h.world⟩

theorem require {α : Type} {x₁ x₂ : Except Fault α} {k₁ k₂ : α → Step} (h : s₁.Alike root s₂)
    (hx : x₁ = x₂) (hk : ∀ a, x₂ = .ok a → (k₁ a).Alike root (k₂ a)) :
    (s₁.require x₁ k₁).Alike root (s₂.require x₂ k₂) := by
  subst hx
  cases x₁ with
  | error f => exact h.fail f
  | ok a => exact hk a rfl

theorem text (h : s₁.Alike root s₂) (v : Value) :
    s₁.world.text s₁.settings v = s₂.world.text s₂.settings v := by
  rw [World.text, World.text, h.world.lists, h.depth]

theorem noting {level : Nat} {n₁ n₂ : World → Except Fault Note} {k₁ k₂ : Situation → Step}
    (h : s₁.Alike root s₂) (hn : n₁ s₁.world = n₂ s₂.world)
    (hk : ∀ t₁ t₂ : Situation, t₁.world.store = s₁.world.store →
      t₂.world.store = s₂.world.store → t₁.Alike root t₂ → (k₁ t₁).Alike root (k₂ t₂)) :
    (s₁.noting level n₁ k₁).Alike root (s₂.noting level n₂ k₂) := by
  unfold Situation.noting
  rw [h.debug]
  split
  · exact hk _ _ rfl rfl h
  · exact h.require hn fun note _ => hk _ _ rfl rfl (h.withWorld (h.world.note note))

theorem notingText {level : Nat} {n : String → Note} {k₁ k₂ : Situation → Step}
    (h : s₁.Alike root s₂)
    (hk : ∀ t₁ t₂ : Situation, t₁.world.store = s₁.world.store →
      t₂.world.store = s₂.world.store → t₁.Alike root t₂ → (k₁ t₁).Alike root (k₂ t₂)) :
    (s₁.notingText level v n k₁).Alike root (s₂.notingText level v n k₂) :=
  h.noting (congrArg (·.map n) (h.text v)) hk

theorem requireBoolean {e : Node Label} {k₁ k₂ : Bool → Step} (h : s₁.Alike root s₂)
    (hk : ∀ b, (k₁ b).Alike root (k₂ b)) :
    (s₁.requireBoolean v e k₁).Alike root (s₂.requireBoolean v e k₂) := by
  cases v with
  | boolean b => exact hk b
  | _ => exact h.fail _

theorem requireList {e : Node Label} {k₁ k₂ : Nat → Step} (h : s₁.Alike root s₂)
    (hk : ∀ list, (k₁ list).Alike root (k₂ list)) :
    (s₁.requireList v e k₁).Alike root (s₂.requireList v e k₂) := by
  cases v with
  | list address => exact hk address
  | _ => exact h.fail _

theorem requireIndex {list : Nat} {e : Node Label} {k₁ k₂ : Nat → Step} (h : s₁.Alike root s₂)
    (hk : ∀ i, (k₁ i).Alike root (k₂ i)) :
    (s₁.requireIndex list v e k₁).Alike root (s₂.requireIndex list v e k₂) := by
  cases v with
  | integer n =>
    simp only [Situation.requireIndex, h.world.lists]
    split
    · exact h.fail _
    · exact hk _
  | _ => exact h.fail _

theorem execute (h : s₁.Alike root s₂) (statements : Node Label) :
    (s₁.execute statements env₁).Alike root (s₂.execute statements env₂) :=
  h.require rfl fun _ _ => h.go ⟨env₂, rfl⟩

theorem enter (h : s₁.Alike root s₂) (statements : Node Label) :
    (s₁.enter statements env₁).Alike root (s₂.enter statements env₂) :=
  (h.withWorld ((h.world.openLeft env₁).openRight env₂)).execute statements

theorem take (h : s₁.Alike root s₂) (reason : String) (branch : Node Label) :
    (s₁.take v reason branch env₁).Alike root (s₂.take v reason branch env₂) := by
  refine h.notingText fun t₁ t₂ _ _ h => ?_
  cases branch with
  | case value statements => exact h.enter statements
  | _ => exact h.fail _

theorem select {default : Option (Node Label)} {cases : List (Node Label)}
    (h : s₁.Alike root s₂) :
    (s₁.select v default env₁ cases).Alike root (s₂.select v default env₂ cases) := by
  induction cases generalizing default with
  | nil =>
    cases default with
    | none => exact h.go ⟨env₂, rfl⟩
    | some branch => exact h.take "default" branch
  | cons case rest ih =>
    simp only [Situation.select]
    cases case.content? with
    | none => exact h.fail _
    | some content =>
      cases content with
      | nothing => exact ih
      | node value => exact h.await ⟨env₂, rfl⟩ ⟨env₂, rfl⟩
      | bare value => exact h.fail _

theorem invoke {arguments : List Value} (h : s₁.Alike root s₂)
    (same : SameFunctions s₁.world s₂.world env₁ env₂) (name : Json) (node : Node Label) :
    (s₁.invoke env₁ name arguments node).Alike root (s₂.invoke env₂ name arguments node) := by
  refine h.require rfl fun key _ => ?_
  rw [same]
  cases s₂.world.store.findFunction env₂ key arguments.length with
  | none => exact h.fail _
  | some n => exact h.go ⟨env₂, rfl⟩

/-- A list is made of values. -/
theorem newList (h : s₁.Alike root s₂) (items : Array Value) :
    ((s₁.withWorld { s₁.world with store := (s₁.world.store.newList items).1 }).go
        (.value (.list (s₁.world.store.newList items).2))).Alike root
      ((s₂.withWorld { s₂.world with store := (s₂.world.store.newList items).1 }).go
        (.value (.list (s₂.world.store.newList items).2))) := by
  simp only [Store.newList, h.world.lists]
  exact (h.withWorld (h.world.setLists _)).go ⟨⟨root, []⟩, rfl⟩

theorem evaluate {e : Node Label} (h : s₁.Alike root s₂)
    (vars : ∀ label name offset, e = .access label name offset →
      SameVariable s₁ s₂ env₁ env₂ label name)
    (functions : SameFunctions s₁.world s₂.world env₁ env₂) :
    (s₁.evaluate e env₁).Alike root (s₂.evaluate e env₂) := by
  cases e with
  | literal label value => exact h.go ⟨env₂, rfl⟩
  | group label inner => exact h.go ⟨env₂, rfl⟩
  | binary label op left right => cases op <;> exact h.await ⟨env₂, rfl⟩ ⟨env₂, rfl⟩
  | access label name offset =>
    obtain ⟨n, x₁, x₂, hx, h₁, h₂⟩ := vars label name offset rfl
    obtain ⟨_, _, value⟩ := Variable.bare_eq hx
    simp only [Situation.evaluate, h₁, h₂, value]
    split
    · exact h.go ⟨env₂, rfl⟩
    · exact h.requireList fun list => h.await ⟨env₂, rfl⟩ ⟨env₂, rfl⟩
  | call label name arguments =>
    refine h.require rfl fun arguments _ => ?_
    cases arguments with
    | nil => exact h.invoke functions name _
    | cons first rest => exact h.await ⟨env₂, rfl⟩ ⟨env₂, rfl⟩
  | listLiteral label elements =>
    refine h.require rfl fun elements _ => ?_
    cases elements with
    | nil => exact h.newList #[]
    | cons first rest => exact h.await ⟨env₂, rfl⟩ ⟨env₂, rfl⟩
  | _ => exact h.fail _

theorem executeOne {statement : Node Label} (h : s₁.Alike root s₂)
    (vars : ∀ label name offset value, statement = .assignment (.access label name offset) value →
      SameVariable s₁ s₂ env₁ env₂ label name) :
    (s₁.executeOne statement env₁).Alike root (s₂.executeOne statement env₂) := by
  cases statement with
  | assignment receiver value =>
    cases receiver with
    | access label name offset =>
      obtain ⟨n, x₁, x₂, _, h₁, h₂⟩ := vars label name offset value rfl
      simp only [Situation.executeOne, h₁, h₂]
      exact h.await ⟨env₂, rfl⟩ ⟨env₂, rfl⟩
    | _ => exact h.fail _
  | declaration label name typeName value =>
    refine h.await ⟨env₂, rfl⟩ ?_
    split <;> exact ⟨env₂, rfl⟩
  | loop condition statements =>
    simp only [Situation.executeOne]
    -- Either side may open a block for the loop.
    cases s₁.settings.loops <;> cases s₂.settings.loops
    · exact (h.withWorld ((h.world.openLeft _).openRight _)).await ⟨_, rfl⟩ ⟨_, rfl⟩
    · exact (h.withWorld (h.world.openLeft _)).await ⟨_, rfl⟩ ⟨_, rfl⟩
    · exact (h.withWorld (h.world.openRight _)).await ⟨_, rfl⟩ ⟨_, rfl⟩
    · exact (h.withWorld h.world).await ⟨_, rfl⟩ ⟨_, rfl⟩
  | expressionStmt | conditional | switch | ret => exact h.await ⟨env₂, rfl⟩ ⟨env₂, rfl⟩
  | _ => exact h.fail _

theorem executeAll {statements : List (Node Label)} (h : s₁.Alike root s₂)
    (vars : ∀ label name offset value rest,
      statements = .assignment (.access label name offset) value :: rest →
      SameVariable s₁ s₂ env₁ env₂ label name) :
    (s₁.executeAll statements env₁).Alike root (s₂.executeAll statements env₂) := by
  cases statements with
  | nil => exact h.go ⟨env₂, rfl⟩
  | cons first rest =>
    refine (h.behind ⟨env₂, rfl⟩).executeOne fun label name offset value he => ?_
    exact vars label name offset value rest (by rw [he])

/-- A function is called: its body runs in a new block. -/
theorem call {arguments : List Value} (h : s₁.Alike root s₂) (n : Nat)
    (room₁ : root < s₁.world.store.blocks.size) (room₂ : root < s₂.world.store.blocks.size) :
    (s₁.call n arguments).Alike root (s₂.call n arguments) := by
  simp only [Situation.call, h.world.functions]
  cases s₂.world.store.functions[n]? with
  | none => exact h.go ⟨⟨root, []⟩, rfl⟩
  | some f =>
    have texts : s₁.world.text s₁.settings = s₂.world.text s₂.settings := funext h.text
    refine h.noting (by rw [texts]) fun t₁ t₂ store₁ store₂ h => ?_
    rw [← store₁] at room₁
    rw [← store₂] at room₂
    cases f.body with
    | print =>
      refine h.require (h.text _) fun text _ => ?_
      exact (h.withWorld (h.world.print text)).go ⟨⟨root, []⟩, rfl⟩
    | code parameters statements home =>
      simp only [h.depth, h.calls]
      split
      · exact h.fail .tooDeep
      · obtain ⟨faults, world⟩ := h.world.enter room₁ room₂ home t₁.program.found
          t₂.program.found (parameters.zip arguments)
        generalize (t₁.world.openBlock home).1.bind (t₁.world.openBlock home).2
          t₁.program.found (parameters.zip arguments) = bound₁ at *
        generalize (t₂.world.openBlock home).1.bind (t₂.world.openBlock home).2
          t₂.program.found (parameters.zip arguments) = bound₂ at *
        obtain ⟨u₁, fault⟩ := bound₁
        obtain ⟨u₂, fault⟩ := bound₂
        obtain rfl := faults
        cases fault with
        | some f => exact .halt world
        | none =>
          have inside : Situation.Alike root { t₁ with world := u₁, calls := t₂.calls + 1 }
              { t₂ with world := u₂, calls := t₂.calls + 1 } :=
            ⟨h.debug, h.depth, h.tree, h.frames, rfl, world⟩
          exact (inside.behind ⟨home, rfl⟩).execute statements

theorem global {g functions : Node Label} {rest : List (Node Label)} {env : Env}
    (h : s₁.Alike root s₂) :
    (s₁.global g rest functions env).Alike root (s₂.global g rest functions env) := by
  unfold Situation.global
  cases g.content? with
  | none => exact h.fail _
  | some content =>
    cases content with
    | nothing => exact h.await ⟨env, rfl⟩ ⟨env, rfl⟩
    | node value => exact h.await ⟨env, rfl⟩ ⟨env, rfl⟩
    | bare value => exact h.fail _

theorem defineFunction {f : Node Label} {rest : List (Node Label)} {env : Env}
    (h : s₁.Alike root s₂) (hr : env.block = root) (room₁ : root < s₁.world.store.blocks.size)
    (room₂ : root < s₂.world.store.blocks.size) :
    (s₁.defineFunction f rest env).Alike root (s₂.defineFunction f rest env) := by
  subst hr
  cases f with
  | function label name parameters returnTypeName statements =>
    refine h.require rfl fun (header, returns, key) _ => ?_
    simp only
    generalize Callable.mk _ _ _ _ _ = callable
    rcases h.world.defineFunction room₁ room₂ key callable with ⟨h₁, h₂⟩ | ⟨u₁, u₂, n, h₁, h₂, same⟩
    · rw [h₁, h₂]
      exact h.fail _
    · rw [h₁, h₂]
      refine (h.withWorld same).noting rfl fun t₁ t₂ _ _ h => ?_
      exact h.go ⟨env, rfl⟩
  | _ => exact h.fail _

theorem start {env : Env} (h : s₁.Alike root s₂) : (s₁.start env).Alike root (s₂.start env) := by
  unfold Situation.start
  rw [h.tree]
  cases s₂.program.tree with
  | source globals functions => exact h.require rfl fun globals _ => h.go ⟨env, rfl⟩
  | _ => exact h.fail _

end Situation.Alike

end PlcLang
