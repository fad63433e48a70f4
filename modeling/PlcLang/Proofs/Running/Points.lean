import PlcLang.Proofs.Running.Program

namespace PlcLang

/-- A machine is about to execute an access with a label to a name in a block: it reads the
variable, or has it take a value. -/
inductive Machine.Accesses : Machine → Label → Json → Env → Prop where
  | read {label : Label} {name : Json} {offset : Node Label} {env : Env} {K : List Frame}
      {calls : Nat} {w : World} :
      Accesses ⟨.evaluate (.access label name offset) env, K, calls, w⟩ label name env
  | assigned {label : Label} {name : Json} {offset value : Node Label} {rest : List (Node Label)}
      {env : Env} {K : List Frame} {calls : Nat} {w : World} :
      Accesses ⟨.execute (.assignment (.access label name offset) value :: rest) env, K, calls, w⟩
        label name env

/-- A machine may look for a function in a block. -/
inductive Machine.Invokes : Machine → Env → Prop where
  | first {e : Node Label} {env : Env} {K : List Frame} {calls : Nat} {w : World} :
      Invokes ⟨.evaluate e env, K, calls, w⟩ env
  | last {v : Value} {name : Json} {done : List Value} {rest : List (Node Label)}
      {node : Node Label} {env : Env} {K : List Frame} {calls : Nat} {w : World} :
      Invokes ⟨.value v, .argument name done rest node env :: K, calls, w⟩ env

/-- A machine works on what belongs to the program as a whole, in its block. -/
inductive Machine.Outside : Machine → Env → Prop where
  | globals {rest : List (Node Label)} {functions : Node Label} {env : Env} {K : List Frame}
      {calls : Nat} {w : World} : Outside ⟨.globals rest functions env, K, calls, w⟩ env
  | global {v : Value} {g : Node Label} {rest : List (Node Label)} {functions : Node Label}
      {env : Env} {K : List Frame} {calls : Nat} {w : World} :
      Outside ⟨.value v, .global g rest functions env :: K, calls, w⟩ env
  | functions {rest : List (Node Label)} {env : Env} {K : List Frame} {calls : Nat} {w : World} :
      Outside ⟨.functions rest env, K, calls, w⟩ env
  | main {env : Env} {K : List Frame} {calls : Nat} {w : World} :
      Outside ⟨.main env, K, calls, w⟩ env

section

variable {c : Course} {bottom : Waiting} {F : Defined} {made : Made} {m : Machine} {s : Store}
  {t r : Ty} {p : Scope} {cs : List Scope} {K : List Frame} {env : Env} {label : Label}
  {name : Json}

/-- Functions are found in the block of the program only. -/
theorem Scope.Fits.findFunction {latest : DeclId → Option Nat} (h : p.Fits c s latest) (key : Key)
    (arity : Nat) :
    s.findFunction (p.env c.root) key arity = (s.block c.root).functions.lookup (key, arity) := by
  induction h with
  | globals => exact Store.findFunction_root
  | inside _ _ _ bare _ _ _ ih =>
    rw [← ih]
    simp only [Store.findFunction, Scope.env, Env.chain, List.findSome?_cons, bare,
      List.lookup_nil]

theorem Wants.argument_env {done : List Value} {rest : List (Node Label)} {node : Node Label}
    {K' : List Frame} (h : Wants c bottom s t r p cs K) (busy : K ≠ bottom.frames)
    (hK : K = .argument name done rest node env :: K') : env = p.env c.root := by
  cases h with
  | bottom => exact (busy rfl).elim
  | argument =>
    cases hK
    rfl
  | _ => cases hK

theorem Wants.declaration_env {K' : List Frame} (h : Wants c bottom s t r p cs K)
    (busy : K ≠ bottom.frames) (hK : K = .declaration label name env :: K') :
    ∃ l q, p = .inside l q ∧ env = p.env c.root := by
  cases h with
  | bottom => exact (busy rfl).elim
  | declaration =>
    cases hK
    exact ⟨_, _, rfl, rfl⟩
  | _ => cases hK

theorem Wants.global_bottom {g : Node Label} {rest : List (Node Label)} {functions : Node Label}
    {K' : List Frame} (h : Wants c bottom s t r p cs K)
    (hK : K = .global g rest functions env :: K') : K = bottom.frames := by
  cases h with
  | bottom => rfl
  | _ => cases hK

theorem Sound.live (h : Sound c bottom F made m) :
    ∃ (p : Scope) (cs : List Scope), Live c F m.world.store made p cs := by
  cases h <;> exact ⟨_, _, ‹_›⟩

/-- The block of the program is there. -/
theorem Stage.room (h : Stage c made m) : c.root < m.world.store.blocks.size := by
  cases h with
  | start _ live => exact live.fits.block_lt (Or.inl rfl)
  | globals _ _ _ live => exact live.fits.block_lt (Or.inl rfl)
  | functions _ fits => exact fits.block_lt (Or.inl rfl)
  | main base => exact base.block_lt (Or.inl rfl)
  | global _ _ _ _ _ _ sound | running sound =>
    obtain ⟨p, cs, live⟩ := sound.live
    exact live.fits.block_lt (Or.inl rfl)

theorem Sound.accesses (h : Sound c bottom F made m) (access : m.Accesses label name env) :
    ∃ (key : Key) (b : Binding) (p : Scope), name.key? = some key ∧
      (c.found.of label).binding = some b ∧ p.context.findVariable key = some b ∧
      p.Fits c m.world.store made.latest ∧ env = p.env c.root := by
  cases access with
  | read =>
    cases h with
    | evaluate typed _ live =>
      obtain ⟨key, b, isName, inScope, bound, _⟩ := typed_access typed
      exact ⟨key, b, _, isName, bound, inScope, live.fits, rfl⟩
  | assigned =>
    cases h with
    | execute all _ _ _ live =>
      cases all with
      | cons first _ =>
        cases first with
        | assignment target _ _ =>
          obtain ⟨key, b, isName, inScope, bound, _⟩ := typed_access target
          exact ⟨key, b, _, isName, bound, inScope, live.fits, rfl⟩

/-- An access is one that the checker resolved, in blocks that fit what it knows there. -/
theorem Stage.accesses (h : Stage c made m) (access : m.Accesses label name env) :
    ∃ (key : Key) (b : Binding) (p : Scope), name.key? = some key ∧
      (c.found.of label).binding = some b ∧ p.context.findVariable key = some b ∧
      p.Fits c m.world.store made.latest ∧ env = p.env c.root := by
  cases h with
  | global _ _ _ _ _ _ sound | running sound => exact sound.accesses access
  | _ => cases access

/-- Wherever a function is looked for, it is found in the block of the program. -/
theorem Stage.invokes (h : Stage c made m) (invokes : m.Invokes env) (key : Key) (arity : Nat) :
    m.world.store.findFunction env key arity =
      (m.world.store.block c.root).functions.lookup (key, arity) := by
  have found {bottom : Waiting} {F : Defined} (sound : Sound c bottom F made m)
      (idle : ∀ name done rest node env K, bottom.frames ≠ .argument name done rest node env :: K) :
      m.world.store.findFunction env key arity =
        (m.world.store.block c.root).functions.lookup (key, arity) := by
    cases invokes with
    | first =>
      cases sound with
      | evaluate _ _ live => exact live.fits.findFunction key arity
    | last =>
      cases sound with
      | value _ wants live =>
        rw [wants.argument_env (idle _ _ _ _ _ _).symm rfl]
        exact live.fits.findFunction key arity
  cases h with
  | global _ _ _ _ _ _ sound | running sound =>
    exact found sound fun _ _ _ _ _ _ h => by cases h
  | _ => cases invokes

/-- Declarations are made inside functions. -/
theorem Stage.declares {v : Value} {calls : Nat} {w : World}
    (h : Stage c made ⟨.value v, .declaration label name env :: K, calls, w⟩) :
    env.block ≠ c.root := by
  have inside {bottom : Waiting} {F : Defined}
      (sound : Sound c bottom F made ⟨.value v, .declaration label name env :: K, calls, w⟩)
      (idle : ∀ label name env K, bottom.frames ≠ .declaration label name env :: K) :
      env.block ≠ c.root := by
    cases sound with
    | value _ wants live =>
      obtain ⟨l, q, rfl, rfl⟩ := wants.declaration_env (idle _ _ _ _).symm rfl
      cases live.fits with
      | inside _ _ apart => exact apart.1
  cases h with
  | global _ _ _ _ _ _ sound | running sound => exact inside sound fun _ _ _ _ h => by cases h

/-- What belongs to the program as a whole is in its block. -/
theorem Stage.outside (h : Stage c made m) (outside : m.Outside env) : env = ⟨c.root, []⟩ := by
  cases outside with
  | global =>
    cases h with
    | global _ _ _ _ _ _ sound =>
      cases sound with
      | value _ wants _ =>
        have bottom := wants.global_bottom rfl
        cases bottom
        rfl
    | running sound =>
      cases sound with
      | value _ wants _ =>
        have bottom := wants.global_bottom rfl
        cases bottom
  | _ =>
    cases h with
    | global _ _ _ _ _ _ sound | running sound => cases sound
    | _ => rfl

end

end PlcLang
