import PlcLang.Proofs.Renaming.Program
import PlcLang.Proofs.Renaming.World
import PlcLang.Proofs.Values.Faults

namespace PlcLang

/-- A control with the other names in its parts of the program. -/
def Control.rename (r : Renaming) : Control → Control
  | .globals others code env => .globals (Node.renameAll r others) (code.rename r) env
  | .functions others env => .functions (Node.renameAll r others) env
  | .evaluate e env => .evaluate (e.rename r) env
  | .execute statements env => .execute (Node.renameAll r statements) env
  | control => control

/-- A frame with the other names in its parts of the program. -/
def Frame.rename (r : Renaming) : Frame → Frame
  | .global g others functions env =>
    .global (g.rename r) (Node.renameAll r others) (functions.rename r) env
  | .left op second node env => .left op (second.rename r) (node.rename r) env
  | .right op v node => .right op v (node.rename r)
  | .test decisive first second env => .test decisive (first.rename r) (second.rename r) env
  | .boolean e => .boolean (e.rename r)
  | .index list node => .index list (node.rename r)
  | .argument name done others node env =>
    .argument name done (Node.renameAll r others) (node.rename r) env
  | .element done others env => .element done (Node.renameAll r others) env
  | .declaration label _ env => .declaration label (r.declared label) env
  | .assignment n offset receiver node env =>
    .assignment n (offset.rename r) (receiver.rename r) (node.rename r) env
  | .target list v receiver => .target list v (receiver.rename r)
  | .branch e thenStatements elseStatements env =>
    .branch (e.rename r) (thenStatements.rename r) (elseStatements.rename r) env
  | .subject cases env => .subject (cases.rename r) env
  | .case v default this others env =>
    .case v (default.map (Node.rename r)) (this.rename r) (Node.renameAll r others) env
  | .condition e statements env => .condition (e.rename r) (statements.rename r) env
  | .round e statements env => .round (e.rename r) (statements.rename r) env
  | .rest statements env => .rest (Node.renameAll r statements) env
  | frame => frame

/-- The second machine runs the program with the other names. -/
structure Machine.Renamed (r : Renaming) (root : Nat) (m₁ m₂ : Machine) : Prop where
  control : m₂.control = m₁.control.rename r
  frames : m₂.frames = m₁.frames.map (Frame.rename r)
  calls : m₂.calls = m₁.calls
  world : m₁.world.Renamed r root m₂.world

/-- Two such machines as their rules see them. -/
structure Situation.Renamed (r : Renaming) (root : Nat) (s₁ s₂ : Situation) : Prop where
  settings : s₂.settings = s₁.settings
  tree : s₂.program.tree = s₁.program.tree.rename r
  found : s₂.program.found = s₁.program.found.rename r
  frames : s₂.frames = s₁.frames.map (Frame.rename r)
  calls : s₂.calls = s₁.calls
  world : s₁.world.Renamed r root s₂.world

/-- Two steps lead to such machines, or to ends of one kind, unless a name is in the way of one of
them. -/
inductive Step.Renamed (r : Renaming) (root : Nat) : Step → Step → Prop where
  | next {m₁ m₂ : Machine} (same : m₁.Renamed r root m₂) : Step.Renamed r root (.next m₁) (.next m₂)
  | halt {w₁ w₂ : World} {result₁ result₂ : Except Fault Value} (same : w₁.Renamed r root w₂)
      (results : Concur Eq result₁ result₂) :
      Step.Renamed r root (.halt w₁ result₁) (.halt w₂ result₂)
  | first {w₁ : World} {f : Fault} {step₂ : Step} (naming : f.Naming) :
      Step.Renamed r root (.halt w₁ (.error f)) step₂
  | second {w₂ : World} {f : Fault} {step₁ : Step} (naming : f.Naming) :
      Step.Renamed r root step₁ (.halt w₂ (.error f))

theorem items_concur {r : Renaming} (n : Node Label) :
    Concur (fun items items' => items' = Node.renameAll r items) n.items (n.rename r).items := by
  cases n with
  | list items => exact .ok rfl
  | _ => exact .error rfl

theorem Note.map_concur {α : Type} (x : Except Fault α) (n₁ n₂ : α → Note) :
    Concur (fun _ _ => True) (x.map n₁) (x.map n₂) :=
  (Concur.refl x).map fun _ _ _ => trivial

/-- What an operator comes to depends on its values alone. -/
theorem apply_concur (lists : Lists) (depth : Nat) (op : Operator) (a b : Value)
    (subject subject' : Option (Node Label)) :
    Concur Eq (lists.apply depth op a b subject) (lists.apply depth op a b subject') := by
  rw [← Lists.apply_at subject, ← Lists.apply_at subject']
  cases lists.apply depth op a b none with
  | ok v => exact .ok rfl
  | error f => exact .error (by cases f <;> rfl)

namespace Situation.Renamed

variable {r : Renaming} {root : Nat} {s₁ s₂ : Situation} {env : Env} {v : Value} {w₁ w₂ : World}

theorem withWorld (h : s₁.Renamed r root s₂) (hw : w₁.Renamed r root w₂) :
    (s₁.withWorld w₁).Renamed r root (s₂.withWorld w₂) :=
  ⟨h.settings, h.tree, h.found, h.frames, h.calls, hw⟩

theorem behind {frame₁ frame₂ : Frame} (h : s₁.Renamed r root s₂)
    (hf : frame₂ = frame₁.rename r) : (s₁.behind frame₁).Renamed r root (s₂.behind frame₂) :=
  ⟨h.settings, h.tree, h.found, by simp only [Situation.behind, hf, h.frames, List.map_cons],
    h.calls, h.world⟩

theorem fail {f₁ f₂ : Fault} (h : s₁.Renamed r root s₂) (hf : f₁.kind = f₂.kind) :
    (s₁.fail f₁).Renamed r root (s₂.fail f₂) :=
  .halt h.world (.error hf)

theorem go {control₁ control₂ : Control} (h : s₁.Renamed r root s₂)
    (hc : control₂ = control₁.rename r) : (s₁.go control₁).Renamed r root (s₂.go control₂) :=
  .next ⟨hc, h.frames, h.calls, h.world⟩

theorem await {frame₁ frame₂ : Frame} {control₁ control₂ : Control} (h : s₁.Renamed r root s₂)
    (hf : frame₂ = frame₁.rename r) (hc : control₂ = control₁.rename r) :
    (s₁.await frame₁ control₁).Renamed r root (s₂.await frame₂ control₂) :=
  .next ⟨hc, by simp only [hf, h.frames, List.map_cons], h.calls, h.world⟩

theorem require {α β : Type} {R : α → β → Prop} {x₁ : Except Fault α} {x₂ : Except Fault β}
    {k₁ : α → Step} {k₂ : β → Step} (h : s₁.Renamed r root s₂) (hx : Concur R x₁ x₂)
    (hk : ∀ a b, R a b → (k₁ a).Renamed r root (k₂ b)) :
    (s₁.require x₁ k₁).Renamed r root (s₂.require x₂ k₂) := by
  cases hx with
  | ok same => exact hk _ _ same
  | error same => exact h.fail same

theorem text (h : s₁.Renamed r root s₂) (v : Value) :
    s₂.world.text s₂.settings v = s₁.world.text s₁.settings v := by
  rw [World.text, World.text, h.world.lists, h.settings]

theorem noting {level : Nat} {n₁ n₂ : World → Except Fault Note} {k₁ k₂ : Situation → Step}
    (h : s₁.Renamed r root s₂)
    (hn : Concur (fun _ _ => True) (n₁ s₁.world) (n₂ s₂.world))
    (hk : ∀ t₁ t₂ : Situation, t₁.world.store = s₁.world.store → t₁.Renamed r root t₂ →
      (k₁ t₁).Renamed r root (k₂ t₂)) :
    (s₁.noting level n₁ k₁).Renamed r root (s₂.noting level n₂ k₂) := by
  unfold Situation.noting
  rw [h.settings]
  split
  · exact hk _ _ rfl h
  · exact h.require hn fun n n' _ => hk _ _ rfl (h.withWorld (h.world.note n n'))

theorem notingText {level : Nat} {n₁ n₂ : String → Note} {k₁ k₂ : Situation → Step}
    (h : s₁.Renamed r root s₂)
    (hk : ∀ t₁ t₂ : Situation, t₁.world.store = s₁.world.store → t₁.Renamed r root t₂ →
      (k₁ t₁).Renamed r root (k₂ t₂)) :
    (s₁.notingText level v n₁ k₁).Renamed r root (s₂.notingText level v n₂ k₂) := by
  refine h.noting ?_ hk
  rw [h.text]
  exact Note.map_concur _ _ _

theorem requireBoolean {e₁ e₂ : Node Label} {k₁ k₂ : Bool → Step} (h : s₁.Renamed r root s₂)
    (hk : ∀ b, (k₁ b).Renamed r root (k₂ b)) :
    (s₁.requireBoolean v e₁ k₁).Renamed r root (s₂.requireBoolean v e₂ k₂) := by
  cases v with
  | boolean b => exact hk b
  | _ => exact h.fail rfl

theorem requireList {e₁ e₂ : Node Label} {k₁ k₂ : Nat → Step} (h : s₁.Renamed r root s₂)
    (hk : ∀ list, (k₁ list).Renamed r root (k₂ list)) :
    (s₁.requireList v e₁ k₁).Renamed r root (s₂.requireList v e₂ k₂) := by
  cases v with
  | list address => exact hk address
  | _ => exact h.fail rfl

theorem requireIndex {list : Nat} {e₁ e₂ : Node Label} {k₁ k₂ : Nat → Step}
    (h : s₁.Renamed r root s₂) (hk : ∀ i, (k₁ i).Renamed r root (k₂ i)) :
    (s₁.requireIndex list v e₁ k₁).Renamed r root (s₂.requireIndex list v e₂ k₂) := by
  cases v with
  | integer n =>
    simp only [Situation.requireIndex, h.world.lists]
    split
    · refine h.fail ?_
      unfold Fault.ofInteger
      split <;> rfl
    · exact hk _
  | _ => exact h.fail rfl

/-- Both have what the checker found of a node. -/
theorem binding (h : s₁.Renamed r root s₂) (label : Label) :
    (s₂.annotation label).binding = (s₁.annotation label).binding.map (Binding.rename r) := by
  unfold Situation.annotation
  rw [h.found, Annotations.of_rename]
  rfl

/-- An access that the checker resolved stands for the same variable. -/
theorem resolve {label : Label} {b : Binding} {name₁ name₂ : Json} {node₁ node₂ : Node Label}
    {k₁ k₂ : Nat → Variable → Step} (h : s₁.Renamed r root s₂)
    (bound : (s₁.annotation label).binding = some b)
    (hk : ∀ n x₁ x₂, x₁.unnamed = x₂.unnamed → (k₁ n x₁).Renamed r root (k₂ n x₂)) :
    (s₁.resolve env (s₁.annotation label).binding name₁ node₁ k₁).Renamed r root
      (s₂.resolve env (s₂.annotation label).binding name₂ node₂ k₂) := by
  have bound₂ : (s₂.annotation label).binding = some (b.rename r) := by
    rw [h.binding, bound]
    rfl
  have id : (b.rename r).id = b.id := rfl
  simp only [Situation.resolve, bound, bound₂, Option.map_some, Store.resolve, id,
    h.world.findBinding]
  cases s₁.world.store.findBinding env b.id with
  | none => exact h.fail rfl
  | some n =>
    have same := h.world.numbered n
    cases h₁ : s₁.world.store.vars[n]? with
    | none =>
      cases h₂ : s₂.world.store.vars[n]? with
      | none =>
        simp only [h₁, h₂]
        exact h.fail rfl
      | some x₂ => simp [h₁, h₂] at same
    | some x₁ =>
      cases h₂ : s₂.world.store.vars[n]? with
      | none => simp [h₁, h₂] at same
      | some x₂ =>
        simp only [h₁, h₂]
        rw [h₁, h₂] at same
        exact hk n x₁ x₂ (Option.some.inj same)

theorem execute (h : s₁.Renamed r root s₂) (statements : Node Label) :
    (s₁.execute statements env).Renamed r root (s₂.execute (statements.rename r) env) :=
  h.require (items_concur statements) fun _ _ same => h.go (by rw [same]; rfl)

theorem enter (h : s₁.Renamed r root s₂) (statements : Node Label) :
    (s₁.enter statements env).Renamed r root (s₂.enter (statements.rename r) env) := by
  obtain ⟨inner, world⟩ := h.world.openBlock env
  simp only [Situation.enter, inner]
  exact (h.withWorld world).execute statements

theorem take (h : s₁.Renamed r root s₂) (reason : String) (branch : Node Label) :
    (s₁.take v reason branch env).Renamed r root (s₂.take v reason (branch.rename r) env) := by
  refine h.notingText fun t₁ t₂ _ h => ?_
  cases branch with
  | case value statements => exact h.enter statements
  | _ => exact h.fail rfl

theorem select {default : Option (Node Label)} {cases : List (Node Label)}
    (h : s₁.Renamed r root s₂) :
    (s₁.select v default env cases).Renamed r root
      (s₂.select v (default.map (Node.rename r)) env (Node.renameAll r cases)) := by
  induction cases generalizing default with
  | nil =>
    cases default with
    | none => exact h.go rfl
    | some branch => exact h.take "default" branch
  | cons branch rest ih =>
    simp only [Situation.select, Node.renameAll, Node.content?_rename]
    cases branch.content? with
    | none => exact h.fail rfl
    | some content =>
      cases content with
      | nothing => exact ih
      | node value => exact h.await rfl rfl
      | bare value => exact h.fail rfl

theorem invoke {arguments : List Value} (h : s₁.Renamed r root s₂) (name : Json)
    (node₁ node₂ : Node Label) :
    (s₁.invoke env name arguments node₁).Renamed r root (s₂.invoke env name arguments node₂) := by
  refine h.require (Concur.refl _) fun key _ same => ?_
  subst same
  rw [h.world.findFunction]
  cases s₁.world.store.findFunction env key arguments.length with
  | none => exact h.fail rfl
  | some n => exact h.go rfl

/-- A list is made of values. -/
theorem newList (h : s₁.Renamed r root s₂) (items : Array Value) :
    ((s₁.withWorld { s₁.world with store := (s₁.world.store.newList items).1 }).go
        (.value (.list (s₁.world.store.newList items).2))).Renamed r root
      ((s₂.withWorld { s₂.world with store := (s₂.world.store.newList items).1 }).go
        (.value (.list (s₂.world.store.newList items).2))) := by
  simp only [Store.newList, h.world.lists]
  exact (h.withWorld (h.world.setLists _)).go rfl

theorem evaluate {e : Node Label} (h : s₁.Renamed r root s₂)
    (bound : ∀ label name offset, e = .access label name offset →
      ∃ b, (s₁.annotation label).binding = some b) :
    (s₁.evaluate e env).Renamed r root (s₂.evaluate (e.rename r) env) := by
  cases e with
  | literal label value => exact h.go rfl
  | group label inner => exact h.go rfl
  | binary label op left right => cases op <;> exact h.await rfl rfl
  | access label name offset =>
    obtain ⟨b, bound⟩ := bound label name offset rfl
    refine h.resolve bound fun n x₁ x₂ same => ?_
    obtain ⟨_, _, value⟩ := Variable.unnamed_eq same
    simp only [value, Node.isAbsent_rename]
    split
    · exact h.go rfl
    · exact h.requireList fun list => h.await rfl rfl
  | call label name arguments =>
    refine h.require (items_concur arguments) fun arguments _ same => ?_
    subst same
    cases arguments with
    | nil => exact h.invoke name _ _
    | cons first rest => exact h.await rfl rfl
  | listLiteral label elements =>
    refine h.require (items_concur elements) fun elements _ same => ?_
    subst same
    cases elements with
    | nil => exact h.newList #[]
    | cons first rest => exact h.await rfl rfl
  | _ => exact h.fail rfl

theorem executeOne {statement : Node Label} (h : s₁.Renamed r root s₂)
    (bound : ∀ label name offset value, statement = .assignment (.access label name offset) value →
      ∃ b, (s₁.annotation label).binding = some b) :
    (s₁.executeOne statement env).Renamed r root (s₂.executeOne (statement.rename r) env) := by
  cases statement with
  | assignment receiver value =>
    cases receiver with
    | access label name offset =>
      obtain ⟨b, bound⟩ := bound label name offset value rfl
      exact h.resolve bound fun n x₁ x₂ _ => h.await rfl rfl
    | _ => exact h.fail rfl
  | declaration label name typeName value =>
    simp only [Situation.executeOne, Node.rename, Node.isAbsent_rename]
    refine h.await rfl ?_
    split <;> rfl
  | loop condition statements =>
    simp only [Situation.executeOne, Node.rename, h.settings]
    cases s₁.settings.loops with
    | shared =>
      obtain ⟨inner, world⟩ := h.world.openBlock env
      simp only [inner]
      exact (h.withWorld world).await rfl rfl
    | perRound => exact (h.withWorld h.world).await rfl rfl
  | expressionStmt | conditional | switch | ret => exact h.await rfl rfl
  | _ => exact h.fail rfl

theorem executeAll {statements : List (Node Label)} (h : s₁.Renamed r root s₂)
    (bound : ∀ label name offset value rest,
      statements = .assignment (.access label name offset) value :: rest →
      ∃ b, (s₁.annotation label).binding = some b) :
    (s₁.executeAll statements env).Renamed r root
      (s₂.executeAll (Node.renameAll r statements) env) := by
  cases statements with
  | nil => exact h.go rfl
  | cons first rest =>
    refine (h.behind rfl).executeOne fun label name offset value he => ?_
    exact bound label name offset value rest (by rw [he])

/-- A function is called: its body runs in a new block, where its parameters are variables. -/
theorem call {arguments : List Value} (h : s₁.Renamed r root s₂) (n : Nat)
    (room : root < s₁.world.store.blocks.size) :
    (s₁.call n arguments).Renamed r root (s₂.call n arguments) := by
  simp only [Situation.call, h.world.functions, Array.getElem?_map]
  cases s₁.world.store.functions[n]? with
  | none => exact h.go rfl
  | some f =>
    have texts : s₂.world.text s₂.settings = s₁.world.text s₁.settings := funext h.text
    simp only [Option.map_some]
    refine h.noting (by rw [texts]; exact Note.map_concur _ _ _) fun t₁ t₂ store h => ?_
    rw [← store] at room
    obtain ⟨name, arity, types, returns, body⟩ := f
    cases body with
    | print =>
      simp only [Callable.rename, Body.rename]
      refine h.require (.of_eq (h.text _).symm) fun text _ same => ?_
      subst same
      exact (h.withWorld (h.world.print text)).go rfl
    | code parameters statements home =>
      obtain ⟨inner, world⟩ := h.world.openBlock home
      have inside : (t₁.world.openBlock home).2.block ≠ root := (Nat.ne_of_lt room).symm
      simp only [Callable.rename, Body.rename, h.settings, h.calls, inner, h.found,
        List.zip_map_left]
      split
      · exact h.fail rfl
      · rcases world.bind inside
          with ⟨f, stops, naming⟩ | ⟨f, stops, naming⟩ | ⟨u₁, u₂, bound₁, bound₂, world⟩
        · generalize (t₁.world.openBlock home).1.bind _ _ _ = bound at *
          obtain ⟨u, fault⟩ := bound
          subst stops
          exact .first naming
        · generalize (t₂.world.openBlock home).1.bind _ _ _ = bound at *
          obtain ⟨u, fault⟩ := bound
          subst stops
          exact .second naming
        · simp only [bound₁, bound₂]
          have inside : Situation.Renamed r root { t₁ with world := u₁, calls := t₁.calls + 1 }
              { t₂ with world := u₂, calls := t₁.calls + 1 } :=
            ⟨h.settings, h.tree, h.found, h.frames, rfl, world⟩
          exact (inside.behind rfl).execute statements

theorem global {g functions : Node Label} {rest : List (Node Label)} (h : s₁.Renamed r root s₂) :
    (s₁.global g rest functions env).Renamed r root
      (s₂.global (g.rename r) (Node.renameAll r rest) (functions.rename r) env) := by
  simp only [Situation.global, Node.content?_rename]
  cases g.content? with
  | none => exact h.fail rfl
  | some content =>
    cases content with
    | nothing => exact h.await rfl rfl
    | node value => exact h.await rfl rfl
    | bare value => exact h.fail rfl

theorem defineFunction {f : Node Label} {rest : List (Node Label)} (h : s₁.Renamed r root s₂) :
    (s₁.defineFunction f rest env).Renamed r root
      (s₂.defineFunction (f.rename r) (Node.renameAll r rest) env) := by
  cases whole : f with
  | function label name parameters returnTypeName statements =>
    subst whole
    refine h.require (R := fun x y => y = (renameHeader r x.1, x.2)) ?_ fun x y same => ?_
    · refine (items_concur parameters).bind fun parameters _ same => ?_
      subst same
      refine (headerTypes_concur _ _ parameters).bind fun header _ same => ?_
      subst same
      refine (resolveOptional_concur returnTypeName _ _).bind fun returns _ same => ?_
      subst same
      refine (Concur.refl name.key).bind fun key _ same => ?_
      subst same
      exact .ok rfl
    · obtain ⟨header, returns, key⟩ := x
      subst same
      have types : (renameHeader r header).map (·.2) = header.map (·.2) := by
        rw [renameHeader, List.map_map]
        rfl
      have named : (renameHeader r header).map (·.1) = (header.map (·.1)).map (Declared.rename r) := by
        rw [renameHeader, List.map_map, List.map_map]
        rfl
      have length : (renameHeader r header).length = header.length := List.length_map _
      have renamed : (Callable.mk name header.length (header.map (·.2)) returns
          (.code ((header.map (·.1)).map (Declared.rename r)) (statements.rename r) env)) =
          Callable.rename r ⟨name, header.length, header.map (·.2), returns,
            .code (header.map (·.1)) statements env⟩ := rfl
      simp only [Node.rename, types, named, length]
      rw [renamed]
      generalize Callable.mk name _ _ _ _ = callable
      rcases h.world.defineFunction env key callable with ⟨h₁, h₂⟩ | ⟨u₁, u₂, n, h₁, h₂, world⟩
      · rw [h₁, h₂]
        exact h.fail rfl
      · rw [h₁, h₂]
        refine (h.withWorld world).noting (.ok trivial) fun t₁ t₂ _ h => ?_
        exact h.go rfl
  | _ =>
    subst whole
    exact h.fail rfl

theorem start (h : s₁.Renamed r root s₂) : (s₁.start env).Renamed r root (s₂.start env) := by
  unfold Situation.start
  rw [h.tree]
  cases s₁.program.tree with
  | source globals functions =>
    refine h.require (items_concur globals) fun globals _ same => ?_
    exact h.go (by rw [same]; rfl)
  | _ => exact h.fail rfl

end Situation.Renamed

end PlcLang
