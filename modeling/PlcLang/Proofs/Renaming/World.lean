import PlcLang.Machine.Step
import PlcLang.Proofs.Renaming.Expression
import PlcLang.Proofs.Running.Storage

namespace PlcLang

/-- A variable but for its name. -/
def Variable.unnamed (x : Variable) : Variable :=
  { x with name := .null }

/-- A block but for the names of its variables. -/
def Block.unnamed (b : Block) : Block :=
  { b with vars := [] }

theorem Variable.unnamed_eq {x y : Variable} (h : x.unnamed = y.unnamed) :
    x.type = y.type ∧ x.isMutable = y.isMutable ∧ x.value = y.value := by
  cases x
  cases y
  cases h
  exact ⟨rfl, rfl, rfl⟩

theorem Block.unnamed_eq {a b : Block} (h : a.unnamed = b.unnamed) :
    a.functions = b.functions ∧ a.bindings = b.bindings := by
  cases a
  cases b
  cases h
  exact ⟨rfl, rfl⟩

theorem Store.defineFunction_free {s : Store} {env : Env} {key : Key} {f : Callable}
    (free : (s.block env.block).functions.has (key, f.arity) = false) :
    s.defineFunction env key f = some ({ s with
      functions := s.functions.push f
      blocks := s.blocks.modify env.block fun b =>
        { b with functions := b.functions.put (key, f.arity) s.functions.size } },
      s.functions.size) := by
  simp only [Store.defineFunction, free, Bool.false_eq_true, ↓reduceIte]

/-- To define a function leaves the variables of all blocks alone. -/
theorem Store.vars_defineFunction {s s' : Store} {env : Env} {key : Key} {f : Callable} {m : Nat}
    (h : s.defineFunction env key f = some (s', m)) (n : Nat) :
    (s'.block n).vars = (s.block n).vars := by
  unfold Store.defineFunction at h
  simp only at h
  split at h
  · contradiction
  · cases h
    simp only [Store.block, Array.getElem?_modify]
    split
    · cases s.blocks[n]? <;> rfl
    · rfl

def Body.rename (r : Renaming) : Body → Body
  | .print => .print
  | .code parameters statements home =>
    .code (parameters.map (Declared.rename r)) (statements.rename r) home

/-- A function whose code has the other names. -/
def Callable.rename (r : Renaming) (f : Callable) : Callable :=
  { f with body := f.body.rename r }

/-- The second world is that of a program with the other names. In the block `root` the same
variables have names, in the same order. -/
structure World.Renamed (r : Renaming) (root : Nat) (w₁ w₂ : World) : Prop where
  vars : w₁.store.vars.map Variable.unnamed = w₂.store.vars.map Variable.unnamed
  blocks : w₁.store.blocks.map Block.unnamed = w₂.store.blocks.map Block.unnamed
  globals : (w₁.store.block root).vars.map (·.2) = (w₂.store.block root).vars.map (·.2)
  functions : w₂.store.functions = w₁.store.functions.map (Callable.rename r)
  lists : w₂.store.lists = w₁.store.lists
  output : w₂.output = w₁.output

/-- A name is none, or a variable has it already. -/
def Fault.Naming (f : Fault) : Prop :=
  f.kind = .inl .runtimeDuplicateBinding ∨ f = .unfit .notAName

theorem naming_of_key {name : Json} {f : Fault} (h : name.key = .error f) : f.Naming := by
  unfold Json.key at h
  split at h
  · cases h
  · cases h
    exact Or.inr rfl

namespace World.Renamed

variable {r : Renaming} {root : Nat} {w₁ w₂ : World} {env : Env} {key : Key} {v : Value}

theorem size_vars (h : w₁.Renamed r root w₂) : w₁.store.vars.size = w₂.store.vars.size := by
  simpa using congrArg Array.size h.vars

theorem size_blocks (h : w₁.Renamed r root w₂) : w₁.store.blocks.size = w₂.store.blocks.size := by
  simpa using congrArg Array.size h.blocks

theorem block (h : w₁.Renamed r root w₂) (n : Nat) :
    (w₁.store.block n).unnamed = (w₂.store.block n).unnamed := by
  have same : (w₁.store.blocks.map Block.unnamed)[n]? = (w₂.store.blocks.map Block.unnamed)[n]? := by
    rw [h.blocks]
  simp only [Array.getElem?_map] at same
  simp only [Store.block]
  cases h₁ : w₁.store.blocks[n]? <;> cases h₂ : w₂.store.blocks[n]? <;> simp_all

theorem callables (h : w₁.Renamed r root w₂) (n : Nat) :
    (w₁.store.block n).functions = (w₂.store.block n).functions :=
  (Block.unnamed_eq (h.block n)).1

theorem bindings (h : w₁.Renamed r root w₂) (n : Nat) :
    (w₁.store.block n).bindings = (w₂.store.block n).bindings :=
  (Block.unnamed_eq (h.block n)).2

theorem findFunction (h : w₁.Renamed r root w₂) (env : Env) (key : Key) (arity : Nat) :
    w₂.store.findFunction env key arity = w₁.store.findFunction env key arity := by
  simp only [Store.findFunction, h.callables]

theorem findBinding (h : w₁.Renamed r root w₂) (env : Env) (id : DeclId) :
    w₂.store.findBinding env id = w₁.store.findBinding env id := by
  simp only [Store.findBinding, h.bindings]

/-- The variables with a number are there on both sides, the same but for the name. -/
theorem numbered (h : w₁.Renamed r root w₂) (n : Nat) :
    w₁.store.vars[n]?.map Variable.unnamed = w₂.store.vars[n]?.map Variable.unnamed := by
  rw [← Array.getElem?_map, ← Array.getElem?_map, h.vars]

theorem note (h : w₁.Renamed r root w₂) (n₁ n₂ : Note) : (w₁.note n₁).Renamed r root (w₂.note n₂) :=
  ⟨h.vars, h.blocks, h.globals, h.functions, h.lists, h.output⟩

theorem print (h : w₁.Renamed r root w₂) (text : String) :
    (w₁.print text).Renamed r root (w₂.print text) :=
  ⟨h.vars, h.blocks, h.globals, h.functions, h.lists, congrArg (· ++ text ++ "\n") h.output⟩

theorem setLists (h : w₁.Renamed r root w₂) (lists : Lists) :
    World.Renamed r root { w₁ with store := { w₁.store with lists := lists } }
      { w₂ with store := { w₂.store with lists := lists } } :=
  ⟨h.vars, h.blocks, h.globals, h.functions, rfl, h.output⟩

theorem setValue (h : w₁.Renamed r root w₂) (n : Nat) :
    World.Renamed r root { w₁ with store := w₁.store.setValue n v }
      { w₂ with store := w₂.store.setValue n v } where
  vars := by
    simp only [Store.setValue]
    refine modify_congr h.vars (fun x y same => ?_) n
    obtain ⟨type, isMutable, _⟩ := Variable.unnamed_eq same
    simp only [Variable.unnamed, type, isMutable]
  blocks := h.blocks
  globals := h.globals
  functions := h.functions
  lists := h.lists
  output := h.output

theorem openBlock (h : w₁.Renamed r root w₂) (env : Env) :
    (w₂.openBlock env).2 = (w₁.openBlock env).2 ∧
      (w₁.openBlock env).1.Renamed r root (w₂.openBlock env).1 where
  left := by simp only [World.openBlock, Store.openBlock, h.size_blocks]
  right :=
    { vars := h.vars
      blocks := by simp only [World.openBlock, Store.openBlock, Array.map_push, h.blocks]
      globals := by
        have same (w : World) : (w.openBlock env).1.store.block root = w.store.block root :=
          Store.block_openBlock w.store env root
        rw [same, same, h.globals]
      functions := h.functions
      lists := h.lists
      output := h.output }

/-- Variables that are the same but for the name are added, if the block `root` names them in the
same order. -/
theorem add {key₁ key₂ : Key} {name₁ name₂ : Json} {isMutable : Bool} {binding : Option Binding}
    (h : w₁.Renamed r root w₂)
    (globals : ((w₁.add env key₁ name₁ binding isMutable v).store.block root).vars.map (·.2) =
      ((w₂.add env key₂ name₂ (binding.map (Binding.rename r)) isMutable v).store.block
        root).vars.map (·.2)) :
    (w₁.add env key₁ name₁ binding isMutable v).Renamed r root
      (w₂.add env key₂ name₂ (binding.map (Binding.rename r)) isMutable v) where
  vars := by
    simp only [World.add, Store.add, Array.map_push, h.vars, Option.map_map]
    rfl
  blocks := by
    have id : (binding.map (Binding.rename r)).map (·.id) = binding.map (·.id) := by
      rw [Option.map_map]
      rfl
    simp only [World.add, Store.add, id, h.size_vars]
    refine modify_congr h.blocks (fun a b same => ?_) env.block
    obtain ⟨functions, bindings⟩ := Block.unnamed_eq same
    simp only [Block.unnamed, functions, bindings]
  globals := globals
  functions := h.functions
  lists := h.lists
  output := h.output

/-- A variable is added inside a function. -/
theorem addInside {key₁ key₂ : Key} {name₁ name₂ : Json} {isMutable : Bool}
    {binding : Option Binding} (h : w₁.Renamed r root w₂) (inside : env.block ≠ root) :
    (w₁.add env key₁ name₁ binding isMutable v).Renamed r root
      (w₂.add env key₂ name₂ (binding.map (Binding.rename r)) isMutable v) := by
  refine h.add ?_
  rw [World.add, World.add, Store.block_add_other inside.symm, Store.block_add_other inside.symm,
    h.globals]

/-- A global is added, where a name is taken on one side or the block names it last on both. -/
theorem addFree {name : Json} {label : Label} {isMutable : Bool} {binding : Option Binding}
    {subject₁ subject₂ : Option (Node Label)} (h : w₁.Renamed r env.block w₂)
    (room : env.block < w₁.store.blocks.size) :
    (∃ f, w₁.addFree env name binding isMutable v subject₁ = .error f ∧ f.Naming) ∨
      (∃ f, w₂.addFree env (r.declared label) (binding.map (Binding.rename r)) isMutable v
        subject₂ = .error f ∧ f.Naming) ∨
      ∃ u₁ u₂, w₁.addFree env name binding isMutable v subject₁ = .ok u₁ ∧
        w₂.addFree env (r.declared label) (binding.map (Binding.rename r)) isMutable v subject₂ =
          .ok u₂ ∧ u₁.Renamed r env.block u₂ := by
  have room₂ : env.block < w₂.store.blocks.size := h.size_blocks ▸ room
  cases isName : name.key with
  | error f =>
    left
    exact ⟨f, by simp only [World.addFree, isName]; rfl, naming_of_key isName⟩
  | ok key =>
    have isName₂ : (r.declared label).key = .ok (.text (r.name label)) := rfl
    rw [World.addFree_eq isName, World.addFree_eq isName₂]
    cases taken₁ : w₁.store.taken env key with
    | true => exact Or.inl ⟨_, rfl, Or.inl rfl⟩
    | false =>
      cases taken₂ : w₂.store.taken env (.text (r.name label)) with
      | true => exact Or.inr (Or.inl ⟨_, rfl, Or.inl rfl⟩)
      | false =>
        refine Or.inr (Or.inr ⟨_, _, rfl, rfl, h.add ?_⟩)
        simp only [Store.taken, Table.has, Option.isSome_eq_false_iff, Option.isNone_iff_eq_none] at taken₁ taken₂
        rw [World.add, World.add, Store.block_add room, Store.block_add room₂]
        simp only [↓reduceIte, Table.put_of_free _ taken₁, Table.put_of_free _ taken₂,
          List.map_append, List.map_cons, h.globals, h.size_vars, List.map_nil]

/-- Parameters with their arguments become variables of a block inside a function, unless a name is
taken on one side. -/
theorem bind {found : Annotations} {arguments : List (Declared Label × Value)}
    (h : w₁.Renamed r root w₂) (inside : env.block ≠ root) :
    (∃ f, (w₁.bind env found arguments).2 = some f ∧ f.Naming) ∨
      (∃ f, (w₂.bind env (found.rename r) (arguments.map (Prod.map (Declared.rename r) id))).2 =
        some f ∧ f.Naming) ∨
      ∃ u₁ u₂, w₁.bind env found arguments = (u₁, none) ∧
        w₂.bind env (found.rename r) (arguments.map (Prod.map (Declared.rename r) id)) =
          (u₂, none) ∧ u₁.Renamed r root u₂ := by
  induction arguments generalizing w₁ w₂ with
  | nil => exact Or.inr (Or.inr ⟨w₁, w₂, rfl, rfl, h⟩)
  | cons argument rest ih =>
    obtain ⟨p, a⟩ := argument
    have named : (p.rename r).name.key = .ok (.text (r.name p.label)) := rfl
    have bound : ((found.rename r).of (p.rename r).label).binding =
        (found.of p.label).binding.map (Binding.rename r) := by
      rw [Annotations.of_rename]
      rfl
    simp only [World.bind, List.map_cons, Prod.map, id, named, bound]
    cases isName : p.name.key with
    | error f => exact Or.inl ⟨f, rfl, naming_of_key isName⟩
    | ok key =>
      simp only
      split
      · exact Or.inl ⟨_, rfl, Or.inl rfl⟩
      · split
        · exact Or.inr (Or.inl ⟨_, rfl, Or.inl rfl⟩)
        · exact ih (h.addInside inside)

/-- A function is defined, or its name is taken. -/
theorem defineFunction (h : w₁.Renamed r root w₂) (env : Env) (key : Key) (f : Callable) :
    (w₁.store.defineFunction env key f = none ∧
        w₂.store.defineFunction env key (f.rename r) = none) ∨
      ∃ (s₁ s₂ : Store) (n : Nat), w₁.store.defineFunction env key f = some (s₁, n) ∧
        w₂.store.defineFunction env key (f.rename r) = some (s₂, n) ∧
        World.Renamed r root { w₁ with store := s₁ } { w₂ with store := s₂ } := by
  have same : (w₂.store.block env.block).functions = (w₁.store.block env.block).functions :=
    (h.callables env.block).symm
  cases taken : (w₁.store.block env.block).functions.has (key, f.arity) with
  | true =>
    left
    have taken₂ : (w₂.store.block env.block).functions.has (key, (f.rename r).arity) = true :=
      same ▸ taken
    simp only [Store.defineFunction, taken, taken₂, ↓reduceIte, and_self]
  | false =>
    right
    have taken₂ : (w₂.store.block env.block).functions.has (key, (f.rename r).arity) = false :=
      same ▸ taken
    have defined₁ := Store.defineFunction_free taken
    have defined₂ := Store.defineFunction_free taken₂
    have size : w₂.store.functions.size = w₁.store.functions.size := by
      rw [h.functions, Array.size_map]
    rw [size] at defined₂
    refine ⟨_, _, _, defined₁, defined₂, h.vars, ?_, ?_, ?_, h.lists, h.output⟩
    · dsimp only
      refine modify_congr h.blocks (fun a b same => ?_) env.block
      obtain ⟨functions, bindings⟩ := Block.unnamed_eq same
      simp only [Block.unnamed, functions, bindings]
      rfl
    · rw [Store.vars_defineFunction defined₁, Store.vars_defineFunction defined₂, h.globals]
    · simp only [h.functions, Array.map_push]

end World.Renamed

end PlcLang
