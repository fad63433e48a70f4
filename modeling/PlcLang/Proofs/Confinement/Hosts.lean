import PlcLang.Proofs.Confinement.Region
import PlcLang.Proofs.Running.Spans
import PlcLang.Session

/-! The blocks that programs run in, and what holds of all that runs there leave behind. -/

namespace PlcLang

/-- A store that comes from opening blocks and running programs in them, in any order and whatever
the runs come to. The blocks that were opened are `envs`. -/
inductive Store.Hosts : List Env → Store → Prop where
  | start : Hosts [] {}
  | root {envs : List Env} {s : Store} (hosts : Hosts envs s) :
      Hosts (s.openRoot.2 :: envs) s.openRoot.1
  | standard {envs : List Env} {s : Store} (hosts : Hosts envs s) :
      Hosts (s.openStandard.2 :: envs) s.openStandard.1
  | child {envs : List Env} {s : Store} {env : Env} (hosts : Hosts envs s) (mem : env ∈ envs) :
      Hosts ((s.openBlock env).2 :: envs) (s.openBlock env).1
  | run {envs : List Env} {env : Env} {w w' : World} {result : Except Fault Value}
      {settings : Settings} {program : Annotated} {steps : Nat} (hosts : Hosts envs w.store)
      (mem : env ∈ envs)
      (ends : Machine.run settings program steps (.initial env w) = some (w', result)) :
      Hosts envs w'.store

/-- Blocks are nested, each variable is in one block, and each function is in the block that is its
home, which is one of those that programs run in. -/
structure Store.Hosting (envs : List Env) (s : Store) : Prop where
  opened : ∀ e ∈ envs, ∀ b ∈ e.chain, b < s.blocks.size
  nested : ∀ e ∈ envs, ∀ e' ∈ envs, e'.block ∈ e.chain → ∀ b ∈ e'.chain, b ∈ e.chain
  known : ∀ b n, (s.block b).Has n → n < s.vars.size
  apart : ∀ b b' n, (s.block b).Has n → (s.block b').Has n → b = b'
  numbered : ∀ b key k, (s.block b).functions.lookup key = some k → k < s.functions.size
  homes : ∀ (k : Nat) (f : Callable) (parameters : List (Declared Label)) (statements : Node Label)
    (home : Env), s.functions[k]? = some f → f.body = .code parameters statements home →
    home ∈ envs ∧ ∀ b key, (s.block b).functions.lookup key = some k → b = home.block

namespace Store.Hosting

variable {envs : List Env} {s s' : Store} {env : Env} {key : Key} {x : Variable}
  {id : Option DeclId} {n : Nat}

/-- A block that is opened while a program runs. -/
theorem enter (h : s.Hosting envs) (env : Env) : (s.openBlock env).1.Hosting envs where
  opened e mem b inside :=
    Nat.lt_of_lt_of_le (h.opened e mem b inside) (grows_openBlock s env).blocks
  nested := h.nested
  known b n has := by
    rw [block_openBlock] at has
    exact h.known b n has
  apart b b' n has has' := by
    rw [block_openBlock] at has has'
    exact h.apart b b' n has has'
  numbered b key k found := by
    rw [block_openBlock] at found
    exact h.numbered b key k found
  homes k f parameters statements home known body := by
    obtain ⟨mem, placed⟩ := h.homes k f parameters statements home known body
    refine ⟨mem, fun b key found => ?_⟩
    rw [block_openBlock] at found
    exact placed b key found

/-- Programs may run in a block that no other is inside. -/
theorem host (h : s.Hosting envs) (inside : ∀ b ∈ env.chain, b < s.blocks.size)
    (closed : ∀ e ∈ envs, e.block ∈ env.chain → ∀ b ∈ e.chain, b ∈ env.chain)
    (new : ∀ e ∈ envs, env.block ∉ e.chain) : s.Hosting (env :: envs) where
  opened := List.forall_mem_cons.2 ⟨inside, h.opened⟩
  nested := List.forall_mem_cons.2 ⟨List.forall_mem_cons.2 ⟨fun _ _ mem => mem, closed⟩,
    fun e mem => List.forall_mem_cons.2 ⟨fun here => (new e mem here).elim, h.nested e mem⟩⟩
  known := h.known
  apart := h.apart
  numbered := h.numbered
  homes k f parameters statements home known body := by
    obtain ⟨mem, placed⟩ := h.homes k f parameters statements home known body
    exact ⟨List.mem_cons_of_mem _ mem, placed⟩

/-- A new block, inside others or not. -/
theorem opens {outer : List Nat} (h : s.Hosting envs) (inside : ∀ b ∈ outer, b < s.blocks.size)
    (closed : ∀ e ∈ envs, e.block ∈ outer → ∀ b ∈ e.chain, b ∈ outer) :
    ({ s with blocks := s.blocks.push {} } : Store).Hosting (⟨s.blocks.size, outer⟩ :: envs) := by
  have entered : ({ s with blocks := s.blocks.push {} } : Store).Hosting envs :=
    h.enter ⟨0, []⟩
  have new : ∀ e ∈ envs, s.blocks.size ∉ e.chain := fun e mem here =>
    Nat.lt_irrefl _ (h.opened e mem _ here)
  refine entered.host (fun b mem => ?_) (fun e mem here b inside => ?_) new
  · rw [Array.size_push]
    rcases List.mem_cons.1 mem with rfl | mem
    · exact Nat.lt_succ_self _
    · exact Nat.lt_succ_of_lt (inside b mem)
  · rcases List.mem_cons.1 here with same | here
    · have inner := new e mem
      rw [← show e.block = s.blocks.size from same] at inner
      exact (inner List.mem_cons_self).elim
    · exact List.mem_cons_of_mem _ (closed e mem here b inside)

theorem openRoot (h : s.Hosting envs) : s.openRoot.1.Hosting (s.openRoot.2 :: envs) :=
  h.opens (fun _ mem => absurd mem List.not_mem_nil) fun _ _ mem => absurd mem List.not_mem_nil

theorem openBlock (h : s.Hosting envs) (mem : env ∈ envs) :
    (s.openBlock env).1.Hosting ((s.openBlock env).2 :: envs) :=
  h.opens (h.opened env mem) (h.nested env mem)

theorem add (h : s.Hosting envs) : (s.add env key x id).Hosting envs where
  opened e mem b inside := Nat.lt_of_lt_of_le (h.opened e mem b inside) grows_add.blocks
  nested := h.nested
  known b n has := by
    simp only [Store.add, Array.size_push]
    rcases has_add has with has | ⟨_, rfl⟩
    · exact Nat.lt_succ_of_lt (h.known b n has)
    · exact Nat.lt_succ_self _
  apart b b' n has has' := by
    have old {b : Nat} (has : (s.block b).Has s.vars.size) : False :=
      Nat.lt_irrefl _ (h.known b _ has)
    rcases has_add has with has | ⟨rfl, rfl⟩ <;> rcases has_add has' with has' | ⟨rfl, new⟩
    · exact h.apart b b' n has has'
    · exact (old (new ▸ has)).elim
    · exact (old has').elim
    · rfl
  numbered b key k found := by
    rw [functions_add] at found
    exact h.numbered b key k found
  homes k f parameters statements home known body := by
    obtain ⟨mem, placed⟩ := h.homes k f parameters statements home known body
    refine ⟨mem, fun b key found => ?_⟩
    rw [functions_add] at found
    exact placed b key found

theorem setValue (h : s.Hosting envs) (n : Nat) (v : Value) : (s.setValue n v).Hosting envs where
  opened := h.opened
  nested := h.nested
  known b i has := by
    simp only [Store.setValue, Array.size_modify]
    exact h.known b i has
  apart := h.apart
  numbered := h.numbered
  homes := h.homes

theorem setLists (h : s.Hosting envs) (lists : Lists) :
    ({ s with lists := lists } : Store).Hosting envs :=
  ⟨h.opened, h.nested, h.known, h.apart, h.numbered, h.homes⟩

/-- A function that is defined in a block is at home there. -/
theorem defineFunction {f : Callable} (h : s.Hosting envs) (mem : env ∈ envs)
    (defined : s.defineFunction env key f = some (s', n))
    (home : ∀ parameters statements home, f.body = .code parameters statements home →
      home = env) : s'.Hosting envs := by
  have room : env.block < s.blocks.size := h.opened env mem _ List.mem_cons_self
  have free : (s.block env.block).functions.lookup (key, f.arity) = none := by
    unfold Store.defineFunction at defined
    simp only at defined
    split at defined
    · contradiction
    · rename_i free
      exact Option.not_isSome_iff_eq_none.1 free
  obtain ⟨_, same, vars, functions, size, blocks⟩ := defineFunction_eq room free
  rw [defined] at same
  cases same
  have has {b n : Nat} (has : (s'.block b).Has n) : (s.block b).Has n := by
    rw [blocks] at has
    split at has <;> exact has
  have names {b k : Nat} {key' : Key × Nat} (found : (s'.block b).functions.lookup key' = some k) :
      (s.block b).functions.lookup key' = some k ∨ b = env.block ∧ k = s.functions.size := by
    rw [blocks] at found
    split at found
    · rename_i here
      simp only [Table.lookup_put] at found
      split at found
      · exact .inr ⟨here, (Option.some.inj found).symm⟩
      · exact .inl found
    · exact .inl found
  refine ⟨fun e mem b inside => ?_, h.nested, fun b n here => ?_,
    fun b b' n here there => h.apart b b' n (has here) (has there), fun b key k found => ?_,
    fun k g parameters statements e known body => ?_⟩
  · rw [size]
    exact h.opened e mem b inside
  · rw [vars]
    exact h.known b n (has here)
  · rw [functions, Array.size_push]
    rcases names found with found | ⟨_, rfl⟩
    · exact Nat.lt_succ_of_lt (h.numbered b key k found)
    · exact Nat.lt_succ_self _
  · rw [functions, Array.getElem?_push] at known
    split at known
    · rename_i new
      cases known
      obtain rfl := home _ _ _ body
      refine ⟨mem, fun b key found => ?_⟩
      rcases names found with found | ⟨here, _⟩
      · exact absurd (h.numbered b key k found) (new ▸ Nat.lt_irrefl _)
      · exact here
    · rename_i old
      obtain ⟨mem, placed⟩ := h.homes k g parameters statements e known body
      refine ⟨mem, fun b key found => ?_⟩
      rcases names found with found | ⟨_, new⟩
      · exact placed b key found
      · exact (old new).elim

theorem addStandard (h : s.Hosting envs) (mem : env ∈ envs) : (s.addStandard env).Hosting envs := by
  unfold Store.addStandard
  cases defined : s.defineFunction env (.text "print")
      ⟨.string "print", 1, [.any], some .nil, .print⟩ with
  | none => exact h
  | some made => exact h.defineFunction mem defined fun _ _ _ body => by cases body

/-- What a step does to the store, where the functions of a program are defined in one of the
blocks. -/
theorem changes {program : Annotated} {m : Machine} (h : m.world.store.Hosting envs)
    (inside : ∀ f rest e, m.control = .functions (f :: rest) e → e ∈ envs)
    (changes : m.Changes program s') : s'.Hosting envs := by
  cases changes with
  | nothing => exact h
  | opens env => exact h.enter env
  | emptyList | list | stores => exact h.setLists _
  | declares | global => exact h.add
  | assigns => exact h.setValue _ _
  | @calls _ _ _ _ _ home w here known body same =>
    have opened : (w.store.openBlock home).1.Hosting envs := by
      rw [same]
      exact h.enter home
    exact World.bind_keeps (fun _ _ _ _ h _ => h.add) opened _ _
  | defines here takes =>
    obtain ⟨_, _, _, _, _, _, _, _, _, _, _, _, defined⟩ := takes
    refine h.defineFunction (inside _ _ _ here) defined fun _ _ home body => ?_
    cases body
    rfl

end Store.Hosting

section

variable {envs : List Env} {env : Env} {settings : Settings} {program : Annotated} {w : World}
  {past : List Machine} {m : Machine}

/-- A step of a run in one of the blocks. -/
theorem Machine.Reaches.hosting_step (run : (initial env w).Reaches settings program past m)
    (mem : env ∈ envs) (h : m.world.store.Hosting envs) :
    (m.step settings program).world.store.Hosting envs := by
  refine h.changes (fun f rest e here => ?_) (m.changes settings program)
  obtain ⟨rfl, _⟩ := run.prelude.control e (by rw [here]; rfl)
  exact mem

theorem Machine.Reaches.hosting (run : (initial env w).Reaches settings program past m)
    (mem : env ∈ envs) (h : w.store.Hosting envs) : m.world.store.Hosting envs := by
  induction run with
  | start => exact h
  | step before next ih =>
    have step := before.hosting_step mem ih
    rw [next] at step
    exact step

theorem Store.Hosts.hosting {s : Store} (hosts : s.Hosts envs) : s.Hosting envs := by
  induction hosts with
  | start =>
    have bare (b : Nat) : ({} : Store).block b = {} := Store.block_beyond (Nat.zero_le _)
    refine ⟨fun e mem => absurd mem List.not_mem_nil, fun e mem => absurd mem List.not_mem_nil,
      fun b n has => ?_, fun b b' n has => ?_, fun b key k found => ?_,
      fun k f parameters statements home known => ?_⟩
    · rw [bare] at has
      exact (Block.not_has_empty n has).elim
    · rw [bare] at has
      exact (Block.not_has_empty n has).elim
    · rw [bare] at found
      cases found
    · simp at known
  | root _ ih => exact ih.openRoot
  | standard _ ih => exact ih.openRoot.addStandard List.mem_cons_self
  | child _ mem ih => exact ih.openBlock mem
  | run _ mem ends ih =>
    obtain ⟨_, _, run, halts⟩ := Machine.Reaches.start.halts ends
    have step := run.hosting_step mem (run.hosting mem ih)
    rw [halts] at step
    exact step

end

namespace Session

/-- A session shares a block that programs run in. -/
def Hosts (s : Session) : Prop :=
  ∃ envs, s.env ∈ envs ∧ s.store.Hosts envs

variable {s : Session} {settings : Settings} {steps : Nat} {tree : Node Label}

theorem hosts_start : start.Hosts :=
  ⟨_, List.mem_cons_self, .standard .start⟩

theorem hosts_run {env : Env} {around : Surroundings} {known : List StaticBlock} {envs : List Env}
    (shared : s.env ∈ envs) (mem : env ∈ envs) (hosts : s.store.Hosts envs) :
    (s.run settings steps env around known tree).1.Hosts := by
  unfold run
  split
  · exact ⟨envs, shared, hosts⟩
  · rename_i ends
    exact ⟨envs, shared, .run hosts mem ends⟩

/-- The programs of a session run in blocks that it opens. -/
theorem Hosts.perform (h : s.Hosts) (settings : Settings) (steps : Nat) (around : Surroundings)
    (check : Bool) (tree : Node Label) : (s.perform settings steps around check tree).1.Hosts := by
  obtain ⟨envs, shared, hosts⟩ := h
  have placed : ∃ envs, ({ s with checks := s.checks + 1 }.place around).1.env ∈ envs ∧
      ({ s with checks := s.checks + 1 }.place around).2 ∈ envs ∧
      ({ s with checks := s.checks + 1 }.place around).1.store.Hosts envs := by
    cases around with
    | fresh => exact ⟨_, List.mem_cons_of_mem _ shared, List.mem_cons_self, .standard hosts⟩
    | shared => exact ⟨envs, shared, shared, hosts⟩
    | child => exact ⟨_, List.mem_cons_self, List.mem_cons_self, .child hosts shared⟩
  unfold Session.perform
  dsimp only
  generalize { s with checks := s.checks + 1 }.place around = place at placed ⊢
  obtain ⟨place, env⟩ := place
  obtain ⟨envs, shared, mem, hosts⟩ := placed
  cases check with
  | false => exact hosts_run shared mem hosts
  | true =>
    simp only [↓reduceIte]
    split
    · exact ⟨envs, shared, hosts⟩
    · exact hosts_run (s := { place with found := _ }) shared mem hosts

end Session

end PlcLang
