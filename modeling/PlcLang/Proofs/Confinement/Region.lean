import PlcLang.Proofs.Chaining.Ground
import PlcLang.Proofs.Running.Changes

/-! What a part of a run may look into and write to, and what it leaves as it was. -/

namespace PlcLang

/-- A variable is in a block, under a name or for a declaration. -/
def Block.Has (b : Block) (n : Nat) : Prop :=
  (∃ key, b.vars.lookup key = some n) ∨ ∃ id, b.bindings.lookup id = some n

theorem Block.not_has_empty (n : Nat) : ¬ ({} : Block).Has n := by
  rintro (⟨_, found⟩ | ⟨_, found⟩) <;> cases found

namespace Store

variable {s : Store} {env : Env} {key : Key} {x : Variable} {id : Option DeclId} {b n : Nat}

theorem block_beyond (h : s.blocks.size ≤ b) : s.block b = {} := by
  rw [block, Array.getElem?_eq_none h]
  rfl

/-- A variable that a name stands for is in one of the blocks around. -/
theorem has_of_resolve {name : Json} (h : s.resolve env id name = some (some n)) :
    ∃ b ∈ env.chain, (s.block b).Has n := by
  unfold resolve at h
  split at h
  · obtain ⟨b, mem, found⟩ := List.exists_of_findSome?_eq_some (Option.some.inj h)
    exact ⟨b, mem, .inr ⟨_, found⟩⟩
  · obtain ⟨key, _, found⟩ := Option.map_eq_some_iff.1 h
    obtain ⟨b, mem, found⟩ := List.exists_of_findSome?_eq_some found
    exact ⟨b, mem, .inl ⟨key, found⟩⟩

/-- A new variable is in one block more, and all others are where they were. -/
theorem has_add (h : ((s.add env key x id).block b).Has n) :
    (s.block b).Has n ∨ b = env.block ∧ n = s.vars.size := by
  by_cases other : b = env.block
  · subst other
    by_cases room : env.block < s.blocks.size
    · rw [block_add room, if_pos rfl] at h
      rcases h with ⟨k, found⟩ | ⟨i, found⟩
      · simp only [Table.lookup_put] at found
        split at found
        · exact .inr ⟨rfl, (Option.some.inj found).symm⟩
        · exact .inl (.inl ⟨k, found⟩)
      · cases id with
        | none => exact .inl (.inr ⟨i, found⟩)
        | some id =>
          simp only [Table.lookup_put] at found
          split at found
          · exact .inr ⟨rfl, (Option.some.inj found).symm⟩
          · exact .inl (.inr ⟨i, found⟩)
    · have beyond : (s.add env key x id).blocks.size ≤ env.block := by
        simpa [add] using Nat.le_of_not_lt room
      rw [block_beyond beyond] at h
      exact (Block.not_has_empty n h).elim
  · rw [block_add_other other] at h
    exact .inl h

theorem functions_add (s : Store) (env : Env) (key : Key) (x : Variable) (id : Option DeclId)
    (b : Nat) : ((s.add env key x id).block b).functions = (s.block b).functions := by
  by_cases other : b = env.block
  · by_cases room : env.block < s.blocks.size
    · rw [block_add room, if_pos other]
    · have beyond : (s.add env key x id).blocks.size ≤ b := by
        simpa [add, other] using Nat.le_of_not_lt room
      have before : s.blocks.size ≤ b := by simpa [add] using beyond
      rw [block_beyond beyond, block_beyond before]
  · rw [block_add_other other]

theorem getElem?_vars_add (h : n < s.vars.size) : (s.add env key x id).vars[n]? = s.vars[n]? := by
  simp only [add, Array.getElem?_push]
  rw [if_neg (Nat.ne_of_lt h)]

end Store

/-- A part of a run that begins with a store and comes to some frames in the end. Of the blocks
there at the beginning it looks into those that are near only. -/
structure Region where
  store : Store
  near : Nat → Prop
  loops : LoopScope
  arrival : Arrival
  frames : List Frame

namespace Region

variable {R : Region} {env : Env}

/-- Names may be looked for there. -/
def Sees (R : Region) (env : Env) : Prop :=
  ∀ b ∈ env.chain, b < R.store.blocks.size → R.near b

/-- Statements may run there: the block is new. -/
structure Owns (R : Region) (env : Env) : Prop where
  sees : R.Sees env
  new : R.store.blocks.size ≤ env.block

/-- A variable is new, or in a block that is near. -/
def MayWrite (R : Region) (n : Nat) : Prop :=
  n < R.store.vars.size → ∃ b, R.near b ∧ (R.store.block b).Has n

/-- Code runs at home, which is near. -/
def MayCall (R : Region) (k : Nat) : Prop :=
  ∀ (f : Callable) (parameters : List (Declared Label)) (statements : Node Label) (home : Env),
    R.store.functions[k]? = some f → f.body = .code parameters statements home → R.Sees home

/-- The functions of the blocks that are near may all be called. -/
def Closed (R : Region) : Prop :=
  ∀ b, R.near b → ∀ key k, (R.store.block b).functions.lookup key = some k → R.MayCall k

theorem Sees.inner (h : R.Sees env) {n : Nat} (new : R.store.blocks.size ≤ n) :
    R.Owns ⟨n, env.chain⟩ where
  sees b mem lt := by
    rcases List.mem_cons.1 mem with rfl | mem
    · exact (Nat.not_lt.2 new lt).elim
    · exact h b mem lt
  new := new

end Region

/-- What was there at the beginning is as it was: all names, and all variables but those of the
blocks that are near. What is new has no functions, and has new variables only. -/
structure Store.Within (R : Region) (s : Store) : Prop where
  blocks : R.store.blocks.size ≤ s.blocks.size
  vars : R.store.vars.size ≤ s.vars.size
  names : ∀ b < R.store.blocks.size, s.block b = R.store.block b
  values : ∀ n < R.store.vars.size, (∀ b, R.near b → ¬ (R.store.block b).Has n) →
    s.vars[n]? = R.store.vars[n]?
  functions : s.functions = R.store.functions
  bare : ∀ b, R.store.blocks.size ≤ b → (s.block b).functions = []
  fresh : ∀ b n, R.store.blocks.size ≤ b → (s.block b).Has n → R.store.vars.size ≤ n

namespace Store.Within

variable {R : Region} {s : Store} {env : Env} {key : Key} {id : Option DeclId} {n : Nat}

theorem refl (R : Region) : R.store.Within R where
  blocks := Nat.le_refl _
  vars := Nat.le_refl _
  names _ _ := rfl
  values _ _ _ := rfl
  functions := rfl
  bare b beyond := by rw [block_beyond beyond]
  fresh b n beyond h := by
    rw [block_beyond beyond] at h
    exact (Block.not_has_empty n h).elim

theorem openBlock (h : s.Within R) (env : Env) : (s.openBlock env).1.Within R where
  blocks := Nat.le_trans h.blocks (grows_openBlock s env).blocks
  vars := h.vars
  names b lt := by rw [block_openBlock, h.names b lt]
  values := h.values
  functions := h.functions
  bare b beyond := by rw [block_openBlock, h.bare b beyond]
  fresh b n beyond has := by
    rw [block_openBlock] at has
    exact h.fresh b n beyond has

/-- The block opened inside another is new. -/
theorem owns_openBlock (h : s.Within R) (sees : R.Sees env) : R.Owns (s.openBlock env).2 :=
  sees.inner h.blocks

theorem add (h : s.Within R) (owns : R.Owns env) {x : Variable} :
    (s.add env key x id).Within R where
  blocks := Nat.le_trans h.blocks grows_add.blocks
  vars := by
    simp only [Store.add, Array.size_push]
    exact Nat.le_succ_of_le h.vars
  names b lt := by
    rw [block_add_other (Nat.ne_of_lt (Nat.lt_of_lt_of_le lt owns.new)), h.names b lt]
  values n lt far := by
    rw [getElem?_vars_add (Nat.lt_of_lt_of_le lt h.vars), h.values n lt far]
  functions := h.functions
  bare b beyond := by rw [functions_add, h.bare b beyond]
  fresh b n beyond has := by
    rcases has_add has with has | ⟨_, rfl⟩
    · exact h.fresh b n beyond has
    · exact h.vars

theorem setValue (h : s.Within R) (may : R.MayWrite n) (v : Value) :
    (s.setValue n v).Within R where
  blocks := h.blocks
  vars := by
    simp only [Store.setValue, Array.size_modify]
    exact h.vars
  names := h.names
  values i lt far := by
    have other : n ≠ i := by
      rintro rfl
      obtain ⟨b, near, has⟩ := may lt
      exact far b near has
    rw [← h.values i lt far, Store.setValue, Array.getElem?_modify, if_neg other]
  functions := h.functions
  bare := h.bare
  fresh := h.fresh

theorem setLists (h : s.Within R) (lists : Lists) : ({ s with lists := lists } : Store).Within R :=
  ⟨h.blocks, h.vars, h.names, h.values, h.functions, h.bare, h.fresh⟩

theorem bind {w : World} (h : w.store.Within R) (owns : R.Owns env) (found : Annotations)
    (arguments : List (Declared Label × Value)) :
    (w.bind env found arguments).1.store.Within R :=
  World.bind_keeps (fun _ _ _ _ h _ => h.add owns) h found arguments

/-- A name stands for a variable that may be written to. -/
theorem mayWrite (h : s.Within R) (sees : R.Sees env) {name : Json}
    (found : s.resolve env id name = some (some n)) : R.MayWrite n := by
  intro lt
  obtain ⟨b, mem, has⟩ := has_of_resolve found
  by_cases old : b < R.store.blocks.size
  · rw [h.names b old] at has
    exact ⟨b, sees b mem old, has⟩
  · exact (Nat.not_lt.2 (h.fresh b n (Nat.le_of_not_lt old) has) lt).elim

/-- A name stands for a function that may be called. -/
theorem mayCall (h : s.Within R) (closed : R.Closed) (sees : R.Sees env) {arity k : Nat}
    (found : s.findFunction env key arity = some k) : R.MayCall k := by
  obtain ⟨b, mem, found⟩ := List.exists_of_findSome?_eq_some found
  by_cases old : b < R.store.blocks.size
  · rw [h.names b old] at found
    exact closed b (sees b mem old) _ k found
  · rw [h.bare b (Nat.le_of_not_lt old)] at found
    cases found

end Store.Within

/-- A frame waits for the first of these and comes to the second, and what it has still to run is in
the region. -/
inductive Frame.Inside (R : Region) : Arrival → Frame → Arrival → Prop where
  | left {op : Operator} {right node : Node Label} {env : Env} (sees : R.Sees env) :
      Inside R .value (.left op right node env) .value
  | right {op : Operator} {left : Value} {node : Node Label} :
      Inside R .value (.right op left node) .value
  | test {decisive : Bool} {left right : Node Label} {env : Env} (sees : R.Sees env) :
      Inside R .value (.test decisive left right env) .value
  | boolean {e : Node Label} : Inside R .value (.boolean e) .value
  | index {list : Nat} {node : Node Label} : Inside R .value (.index list node) .value
  | argument {name : Json} {done : List Value} {rest : List (Node Label)} {node : Node Label}
      {env : Env} (sees : R.Sees env) : Inside R .value (.argument name done rest node env) .value
  | element {done : List Value} {rest : List (Node Label)} {env : Env} (sees : R.Sees env) :
      Inside R .value (.element done rest env) .value
  | discard : Inside R .value .discard .ending
  | declaration {label : Label} {name : Json} {env : Env} (owns : R.Owns env) :
      Inside R .value (.declaration label name env) .ending
  | assignment {n : Nat} {offset receiver node : Node Label} {env : Env} (may : R.MayWrite n)
      (sees : R.Sees env) : Inside R .value (.assignment n offset receiver node env) .ending
  | target {list : Nat} {v : Value} {receiver : Node Label} :
      Inside R .value (.target list v receiver) .ending
  | branch {condition thenStatements elseStatements : Node Label} {env : Env}
      (sees : R.Sees env) :
      Inside R .value (.branch condition thenStatements elseStatements env) .ending
  | subject {cases : Node Label} {env : Env} (sees : R.Sees env) :
      Inside R .value (.subject cases env) .ending
  | case {subject : Value} {default : Option (Node Label)} {case : Node Label}
      {rest : List (Node Label)} {env : Env} (sees : R.Sees env) :
      Inside R .value (.case subject default case rest env) .ending
  | condition {condition statements : Node Label} {env : Env} (sees : R.Sees env)
      (new : R.loops = .shared → R.store.blocks.size ≤ env.block) :
      Inside R .value (.condition condition statements env) .ending
  | round {condition statements : Node Label} {env : Env} (sees : R.Sees env)
      (new : R.loops = .shared → R.store.blocks.size ≤ env.block) :
      Inside R .ending (.round condition statements env) .ending
  | rest {statements : List (Node Label)} {env : Env} (owns : R.Owns env) :
      Inside R .ending (.rest statements env) .ending
  | result : Inside R .value .result .ending
  | activation {k : Nat} : Inside R .ending (.activation k) .value

/-- Frames of the region that wait above those it comes to. -/
inductive Region.Stack (R : Region) : Arrival → List Frame → Prop where
  | bottom {o : Arrival} {K : List Frame} (comes : o = R.arrival) (here : K = R.frames) :
      Stack R o K
  | cons {o o' : Arrival} {f : Frame} {K : List Frame} (inside : f.Inside R o o')
      (below : Stack R o' K) : Stack R o (f :: K)

/-- What is done next comes to one of these, and is in the region. -/
inductive Control.Inside (R : Region) : Control → Arrival → Prop where
  | evaluate {e : Node Label} {env : Env} (sees : R.Sees env) : Inside R (.evaluate e env) .value
  | execute {statements : List (Node Label)} {env : Env} (owns : R.Owns env) :
      Inside R (.execute statements env) .ending
  | call {k : Nat} {arguments : List Value} (may : R.MayCall k) :
      Inside R (.call k arguments) .value
  | value {v : Value} : Inside R (.value v) .value
  | ended : Inside R .ended .ending
  | leave {v : Value} : Inside R (.leave v) .ending

/-- A machine does something in the region, and has left alone what it has to. -/
inductive Machine.Inside (R : Region) : Machine → Prop where
  | intro {o : Arrival} {control : Control} {K : List Frame} {calls : Nat} {w : World}
      (next : control.Inside R o) (frames : R.Stack o K) (within : w.store.Within R) :
      Inside R ⟨control, K, calls, w⟩

theorem Machine.Inside.within {R : Region} {m : Machine} (h : m.Inside R) :
    m.world.store.Within R := by
  obtain ⟨_, _, within⟩ := h
  exact within

end PlcLang
