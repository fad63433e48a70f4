import PlcLang.Machine.Step
import PlcLang.Proofs.Running.Storage

namespace PlcLang

/-- A variable but for its type, which only annotations give it. -/
def Variable.bare (x : Variable) : Variable :=
  { x with type := none }

theorem Variable.bare_eq {x₁ x₂ : Variable} (h : x₁.bare = x₂.bare) :
    x₁.name = x₂.name ∧ x₁.isMutable = x₂.isMutable ∧ x₁.value = x₂.value := by
  cases x₁
  cases x₂
  cases h
  exact ⟨rfl, rfl, rfl⟩

/-- Two worlds are alike to programs that run in the block `root`: the same variables, functions and
lists are there, they have the same names in that block, and the same was printed and noted. The
blocks inside functions may differ. -/
structure World.Alike (root : Nat) (w₁ w₂ : World) : Prop where
  size : w₁.store.vars.size = w₂.store.vars.size
  vars : ∀ n : Nat, w₁.store.vars[n]?.map Variable.bare = w₂.store.vars[n]?.map Variable.bare
  functions : w₁.store.functions = w₂.store.functions
  lists : w₁.store.lists = w₂.store.lists
  names : (w₁.store.block root).vars = (w₂.store.block root).vars
  callables : (w₁.store.block root).functions = (w₂.store.block root).functions
  output : w₁.output = w₂.output
  notes : w₁.notes = w₂.notes

/-- A control that works in another block. -/
def Control.at (env : Env) : Control → Control
  | .evaluate e _ => .evaluate e env
  | .execute statements _ => .execute statements env
  | control => control

/-- A frame that works in another block. -/
def Frame.at (env : Env) : Frame → Frame
  | .left op second node _ => .left op second node env
  | .test decisive first second _ => .test decisive first second env
  | .argument name done others node _ => .argument name done others node env
  | .element done others _ => .element done others env
  | .declaration label name _ => .declaration label name env
  | .assignment n offset receiver node _ => .assignment n offset receiver node env
  | .branch e thenStatements elseStatements _ => .branch e thenStatements elseStatements env
  | .subject cases _ => .subject cases env
  | .case v default this others _ => .case v default this others env
  | .condition e statements _ => .condition e statements env
  | .round e statements _ => .round e statements env
  | .rest statements _ => .rest statements env
  | frame => frame

/-- Controls that do the same, each in a block of its own. -/
def Control.Alike (control₁ control₂ : Control) : Prop :=
  ∃ env, control₂ = control₁.at env

/-- Frames that wait for the same, each in a block of its own. -/
inductive FramesAlike : List Frame → List Frame → Prop where
  | nil : FramesAlike [] []
  | cons {frame₁ frame₂ : Frame} {K₁ K₂ : List Frame} (first : ∃ env, frame₂ = frame₁.at env)
      (others : FramesAlike K₁ K₂) : FramesAlike (frame₁ :: K₁) (frame₂ :: K₂)

/-- Two machines do the same, each in blocks of its own. -/
structure Machine.Alike (root : Nat) (m₁ m₂ : Machine) : Prop where
  control : m₁.control.Alike m₂.control
  frames : FramesAlike m₁.frames m₂.frames
  calls : m₁.calls = m₂.calls
  world : m₁.world.Alike root m₂.world

/-- Two machines that do the same, as their rules see them. Their settings may differ in the blocks
of loops, and their programs in the annotations. -/
structure Situation.Alike (root : Nat) (s₁ s₂ : Situation) : Prop where
  debug : s₁.settings.debug = s₂.settings.debug
  depth : s₁.settings.depth = s₂.settings.depth
  tree : s₁.program.tree = s₂.program.tree
  frames : FramesAlike s₁.frames s₂.frames
  calls : s₁.calls = s₂.calls
  world : s₁.world.Alike root s₂.world

/-- Two steps lead to machines that do the same, or to the same end. -/
inductive Step.Alike (root : Nat) : Step → Step → Prop where
  | next {m₁ m₂ : Machine} (same : m₁.Alike root m₂) : Step.Alike root (.next m₁) (.next m₂)
  | halt {w₁ w₂ : World} {result : Except Fault Value} (same : w₁.Alike root w₂) :
      Step.Alike root (.halt w₁ result) (.halt w₂ result)

namespace World.Alike

variable {root : Nat} {w₁ w₂ : World} {env env₁ env₂ : Env} {key : Key} {name : Json}
  {binding₁ binding₂ : Option Binding} {isMutable : Bool} {v : Value}

theorem refl (w : World) : w.Alike root w :=
  ⟨rfl, fun _ => rfl, rfl, rfl, rfl, rfl, rfl, rfl⟩

theorem symm (h : w₁.Alike root w₂) : w₂.Alike root w₁ :=
  ⟨h.size.symm, fun n => (h.vars n).symm, h.functions.symm, h.lists.symm, h.names.symm,
    h.callables.symm, h.output.symm, h.notes.symm⟩

/-- A new block on one side only. -/
theorem openLeft (h : w₁.Alike root w₂) (env : Env) : (w₁.openBlock env).1.Alike root w₂ where
  size := h.size
  vars := h.vars
  functions := h.functions
  lists := h.lists
  names := (congrArg Block.vars (Store.block_openBlock _ env root)).trans h.names
  callables := (congrArg Block.functions (Store.block_openBlock _ env root)).trans h.callables
  output := h.output
  notes := h.notes

theorem openRight (h : w₁.Alike root w₂) (env : Env) : w₁.Alike root (w₂.openBlock env).1 :=
  (h.symm.openLeft env).symm

/-- A variable has the same name, mutability and value on both sides. -/
theorem variable_eq (h : w₁.Alike root w₂) {n : Nat} {x₁ x₂ : Variable}
    (h₁ : w₁.store.vars[n]? = some x₁) (h₂ : w₂.store.vars[n]? = some x₂) :
    x₁.bare = x₂.bare := by
  have he := h.vars n
  rw [h₁, h₂] at he
  exact Option.some.inj he

theorem push (h : w₁.Alike root w₂) {x₁ x₂ : Variable} (hx : x₁.bare = x₂.bare) (n : Nat) :
    (w₁.store.vars.push x₁)[n]?.map Variable.bare =
      (w₂.store.vars.push x₂)[n]?.map Variable.bare := by
  rw [Array.getElem?_push, Array.getElem?_push, h.size]
  split
  · exact congrArg some hx
  · exact h.vars n

/-- A variable is added inside a function. -/
theorem add (h : w₁.Alike root w₂) (h₁ : env₁.block ≠ root) (h₂ : env₂.block ≠ root) :
    (w₁.add env₁ key name binding₁ isMutable v).Alike root
      (w₂.add env₂ key name binding₂ isMutable v) where
  size := by simp [World.add, Store.add, h.size]
  vars := h.push rfl
  functions := h.functions
  lists := h.lists
  names := by
    rw [World.add, World.add, Store.block_add_other h₁.symm, Store.block_add_other h₂.symm]
    exact h.names
  callables := by
    rw [World.add, World.add, Store.block_add_other h₁.symm, Store.block_add_other h₂.symm]
    exact h.callables
  output := h.output
  notes := h.notes

/-- A global is added. -/
theorem addGlobal (h : w₁.Alike env.block w₂) (h₁ : env.block < w₁.store.blocks.size)
    (h₂ : env.block < w₂.store.blocks.size) :
    (w₁.add env key name binding₁ isMutable v).Alike env.block
      (w₂.add env key name binding₂ isMutable v) where
  size := by simp [World.add, Store.add, h.size]
  vars := h.push rfl
  functions := h.functions
  lists := h.lists
  names := by
    rw [World.add, World.add, Store.block_add h₁, Store.block_add h₂]
    simp only [↓reduceIte, h.names, h.size]
  callables := by
    rw [World.add, World.add, Store.block_add h₁, Store.block_add h₂]
    simp only [↓reduceIte, h.callables]
  output := h.output
  notes := h.notes

theorem setValue (h : w₁.Alike root w₂) (n : Nat) :
    World.Alike root { w₁ with store := w₁.store.setValue n v }
      { w₂ with store := w₂.store.setValue n v } where
  size := by simp [Store.setValue, h.size]
  vars m := by
    simp only [Store.setValue, Array.getElem?_modify]
    split
    · have he := h.vars m
      cases hx : w₁.store.vars[m]? <;> cases hy : w₂.store.vars[m]? <;>
        simp_all [Variable.bare]
    · exact h.vars m
  functions := h.functions
  lists := h.lists
  names := h.names
  callables := h.callables
  output := h.output
  notes := h.notes

theorem setLists (h : w₁.Alike root w₂) (lists : Lists) :
    World.Alike root { w₁ with store := { w₁.store with lists := lists } }
      { w₂ with store := { w₂.store with lists := lists } } :=
  ⟨h.size, h.vars, h.functions, rfl, h.names, h.callables, h.output, h.notes⟩

theorem note (h : w₁.Alike root w₂) (n : Note) : (w₁.note n).Alike root (w₂.note n) :=
  ⟨h.size, h.vars, h.functions, h.lists, h.names, h.callables, h.output,
    congrArg (·.push n) h.notes⟩

theorem print (h : w₁.Alike root w₂) (text : String) : (w₁.print text).Alike root (w₂.print text) :=
  ⟨h.size, h.vars, h.functions, h.lists, h.names, h.callables,
    congrArg (· ++ text ++ "\n") h.output, h.notes⟩

/-- Arguments become variables of two blocks that have the same ones. -/
theorem bind {found₁ found₂ : Annotations} {arguments : List (Declared Label × Value)}
    (h : w₁.Alike root w₂) (h₁ : env₁.block ≠ root) (h₂ : env₂.block ≠ root)
    (room₁ : env₁.block < w₁.store.blocks.size) (room₂ : env₂.block < w₂.store.blocks.size)
    (own : (w₁.store.block env₁.block).vars = (w₂.store.block env₂.block).vars) :
    (w₁.bind env₁ found₁ arguments).2 = (w₂.bind env₂ found₂ arguments).2 ∧
      (w₁.bind env₁ found₁ arguments).1.Alike root (w₂.bind env₂ found₂ arguments).1 := by
  induction arguments generalizing w₁ w₂ with
  | nil => exact ⟨rfl, h⟩
  | cons argument rest ih =>
    obtain ⟨p, a⟩ := argument
    have taken (key : Key) : w₁.store.taken env₁ key = w₂.store.taken env₂ key := by
      simp only [Store.taken, own]
    simp only [World.bind]
    cases p.name.key with
    | error f => exact ⟨rfl, h⟩
    | ok key =>
      simp only [taken key]
      split
      · exact ⟨rfl, h⟩
      · refine ih (h.add h₁ h₂) ?_ ?_ ?_
        · exact Nat.lt_of_lt_of_le room₁ Store.grows_add.blocks
        · exact Nat.lt_of_lt_of_le room₂ Store.grows_add.blocks
        · rw [World.add, World.add, Store.block_add room₁, Store.block_add room₂]
          simp only [↓reduceIte, own, h.size]

/-- A function is entered: its arguments become variables of a new block. -/
theorem enter (h : w₁.Alike root w₂) (room₁ : root < w₁.store.blocks.size)
    (room₂ : root < w₂.store.blocks.size) (home : Env) (found₁ found₂ : Annotations)
    (arguments : List (Declared Label × Value)) :
    ((w₁.openBlock home).1.bind (w₁.openBlock home).2 found₁ arguments).2 =
        ((w₂.openBlock home).1.bind (w₂.openBlock home).2 found₂ arguments).2 ∧
      ((w₁.openBlock home).1.bind (w₁.openBlock home).2 found₁ arguments).1.Alike root
        ((w₂.openBlock home).1.bind (w₂.openBlock home).2 found₂ arguments).1 := by
  have new (w : World) : (w.openBlock home).2.block < (w.openBlock home).1.store.blocks.size := by
    simp [World.openBlock, Store.openBlock]
  have empty (w : World) :
      (w.openBlock home).1.store.block (w.openBlock home).2.block = {} :=
    (Store.block_openBlock w.store home _).trans (Store.block_new w.store)
  refine ((h.openLeft home).openRight home).bind (Nat.ne_of_lt room₁).symm
    (Nat.ne_of_lt room₂).symm (new w₁) (new w₂) ?_
  rw [empty, empty]

/-- A function is defined, or its name is taken. -/
theorem defineFunction (h : w₁.Alike env.block w₂) (room₁ : env.block < w₁.store.blocks.size)
    (room₂ : env.block < w₂.store.blocks.size) (key : Key) (f : Callable) :
    (w₁.store.defineFunction env key f = none ∧ w₂.store.defineFunction env key f = none) ∨
      ∃ (s₁ s₂ : Store) (n : Nat), w₁.store.defineFunction env key f = some (s₁, n) ∧
        w₂.store.defineFunction env key f = some (s₂, n) ∧
        World.Alike env.block { w₁ with store := s₁ } { w₂ with store := s₂ } := by
  cases taken : (w₂.store.block env.block).functions.lookup (key, f.arity) with
  | some n =>
    left
    simp [Store.defineFunction, Table.has, h.callables, taken]
  | none =>
    right
    have same : (w₁.store.block env.block).functions.lookup (key, f.arity) = none :=
      h.callables ▸ taken
    obtain ⟨s₁, defined₁, vars₁, functions₁, _, blocks₁⟩ := Store.defineFunction_eq room₁ same
    obtain ⟨s₂, defined₂, vars₂, functions₂, _, blocks₂⟩ := Store.defineFunction_eq room₂ taken
    rw [h.functions] at defined₁
    have root₁ := blocks₁ env.block
    have root₂ := blocks₂ env.block
    simp only [↓reduceIte] at root₁ root₂
    exact ⟨s₁, s₂, _, defined₁, defined₂, {
      size := by simp only [vars₁, vars₂, h.size]
      vars := fun n => by simpa only [vars₁, vars₂] using h.vars n
      functions := by simp only [functions₁, functions₂, h.functions]
      lists := by
        rw [Store.lists_defineFunction defined₁, Store.lists_defineFunction defined₂, h.lists]
      names := by simp only [root₁, root₂, h.names]
      callables := by simp only [root₁, root₂, h.callables, h.functions]
      output := h.output
      notes := h.notes }⟩

end World.Alike

end PlcLang
