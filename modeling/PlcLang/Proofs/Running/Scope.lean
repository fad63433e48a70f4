import PlcLang.Proofs.Checking.Program
import PlcLang.Proofs.Running.History
import PlcLang.Proofs.Running.Storage

namespace PlcLang

/-- A run of a program that was checked. `program` is what runs: its names are resolved by the
declarations that the checker found, or all of them by name. -/
structure Course where
  found : Annotations
  program : Annotated
  settings : Settings
  byName : Bool
  demands : Demands
  /-- The block where the program runs. -/
  root : Nat
  /-- The names of the program known at its end. -/
  final : StaticBlock
  checked : ∃ Γ, CheckedProgram demands found program.tree Γ ⟨final, []⟩
  bindings : ∀ label, (program.found.of label).binding =
    if byName then none else (found.of label).binding
  /-- Names alone do where no loop hides one. -/
  plain : byName = true → demands.clear ∧ ¬ demands.typed

namespace Course

variable (c : Course)

/-- How a variable that the checker knows is marked in its block. -/
def mark (b : Binding) : Option DeclId :=
  if c.byName then none else some b.id

/-- The variable that a block has for one that the checker knows. -/
def caught (s : Store) (block : Nat) (key : Key) (b : Binding) : Option Nat :=
  if c.byName then (s.block block).vars.lookup key else (s.block block).bindings.lookup b.id

/-- A block has a variable for one that the checker knows, and it is the one made last. -/
def Stands (s : Store) (latest : DeclId → Option Nat) (block : Nat) (key : Key) (b : Binding) :
    Prop :=
  ∃ (n : Nat) (x : Variable), c.caught s block key b = some n ∧ latest b.id = some n ∧
    s.vars[n]? = some x ∧ (c.demands.typed → x.type = some b.type)

end Course

/-- A block inside a function, and the variables that the checker knows in it at a point. -/
structure Level where
  block : Nat
  vars : Table Key Binding
  /-- The block is that of a loop: it may still have variables of the round before. -/
  loop : Bool

/-- The blocks around a point of a run, from the inside out. -/
inductive Scope where
  | globals (static : StaticBlock)
  | inside (level : Level) (outer : Scope)

namespace Scope

/-- What the checker knows there. -/
def context : Scope → Context
  | globals static => ⟨static, []⟩
  | inside level outer => ⟨⟨level.vars, []⟩, outer.context.blocks⟩

def env (root : Nat) : Scope → Env
  | globals _ => ⟨root, []⟩
  | inside level outer => ⟨level.block, (outer.env root).chain⟩

/-- The blocks inside the function. -/
def inner : Scope → List Nat
  | globals _ => []
  | inside level outer => level.block :: outer.inner

end Scope

/-- A function in a store does what the checker knows of it. -/
inductive Fulfils (c : Course) (f : Callable) (g : Signature) : Prop where
  | print (body : f.body = .print) (gives : g.returns = .nil)
  | code {header : List (Declared Label × Ty)} {statements : List (Node Label)} {S : StaticBlock}
      (body : f.body = .code (header.map (·.1)) (.list statements) ⟨c.root, []⟩)
      (takes : g.parameters = header.map (·.2))
      (checked : CheckedBody c.demands c.found ⟨S, []⟩ header g.returns statements)
      (vars : S.vars = c.final.vars)
      (functions : ∀ key f, S.functions.lookup key = some f → c.final.functions.lookup key = some f)

/-- The functions that the checker knows are in a store. -/
def Offers (c : Course) (s : Store) (S : StaticBlock) : Prop :=
  ∀ key g, S.functions.lookup key = some g → ∃ (n : Nat) (f : Callable),
    (s.block c.root).functions.lookup key = some n ∧ s.functions[n]? = some f ∧ Fulfils c f g

/-- The blocks of a store hold what the checker knows at a point, and nothing in them is in the
way. -/
inductive Scope.Fits (c : Course) (s : Store) (latest : DeclId → Option Nat) : Scope → Prop where
  | globals {S : StaticBlock} (room : c.root < s.blocks.size)
      (own : ∀ key b, S.vars.lookup key = some b → c.Stands s latest c.root key b)
      (names : ∀ key, S.vars.lookup key = none → (s.block c.root).vars.lookup key = none)
      (offers : Offers c s S) : Scope.Fits c s latest (.globals S)
  | inside {l : Level} {p : Scope} (outer : p.Fits c s latest) (room : l.block < s.blocks.size)
      (apart : l.block ≠ c.root ∧ l.block ∉ p.inner)
      (bare : (s.block l.block).functions = [])
      (own : ∀ key b, l.vars.lookup key = some b → c.Stands s latest l.block key b)
      (uncaught : l.loop = true ∨ c.byName = false → ∀ key b,
        p.context.findVariable key = some b → c.caught s l.block key b = none)
      (names : l.loop = false → ∀ key, l.vars.lookup key = none →
        (s.block l.block).vars.lookup key = none) :
      Scope.Fits c s latest (.inside l p)

section

variable {c : Course} {s s' : Store} {latest latest' : DeclId → Option Nat} {p : Scope} {l : Level}
  {key : Key} {b : Binding}

theorem findVariable_inside :
    (Scope.inside l p).context.findVariable key =
      (l.vars.lookup key).or (p.context.findVariable key) := by
  simp only [Scope.context, Context.findVariable, Context.blocks, List.findSome?_cons]
  cases l.vars.lookup key <;> rfl

theorem findVariable_globals {S : StaticBlock} :
    (Scope.globals S).context.findVariable key = S.vars.lookup key := by
  simp only [Scope.context, Context.findVariable, Context.blocks, List.findSome?_cons,
    List.findSome?_nil]
  cases S.vars.lookup key <;> rfl

/-- What the checker resolves to a variable is found in the blocks, and it is what was made last for
that variable. -/
theorem Scope.Fits.finds (h : p.Fits c s latest) (hb : p.context.findVariable key = some b) :
    ∃ (n : Nat) (x : Variable),
      (p.env c.root).chain.findSome? (fun block => c.caught s block key b) = some n ∧
        latest b.id = some n ∧ s.vars[n]? = some x ∧ (c.demands.typed → x.type = some b.type) := by
  induction h with
  | globals room own names offers =>
    rw [findVariable_globals] at hb
    obtain ⟨n, x, hc, hl, hx⟩ := own key b hb
    exact ⟨n, x, by simp [Scope.env, Env.chain, hc], hl, hx⟩
  | inside outer room apart bare own uncaught names ih =>
    rename_i l p
    rw [findVariable_inside] at hb
    simp only [Scope.env, Env.chain, List.findSome?_cons]
    cases here : l.vars.lookup key with
    | some b' =>
      rw [here] at hb
      obtain rfl := Option.some.inj hb
      obtain ⟨n, x, hc, hl, hx⟩ := own key b' here
      exact ⟨n, x, by rw [hc], hl, hx⟩
    | none =>
      rw [here] at hb
      obtain ⟨n, x, hc, hl, hx⟩ := ih hb
      refine ⟨n, x, ?_, hl, hx⟩
      have free : c.caught s l.block key b = none := by
        by_cases hu : l.loop = true ∨ c.byName = false
        · exact uncaught hu key b hb
        · simp only [not_or, Bool.not_eq_true, Bool.not_eq_false] at hu
          rw [Course.caught, if_pos hu.2]
          exact names hu.1 key here
      rw [free]
      exact hc

theorem findFunction_inside {arity : Nat} :
    (Scope.inside l p).context.findFunction key arity = p.context.findFunction key arity := rfl

/-- What the checker resolves to a function is found in the blocks, and does what it says. -/
theorem Scope.Fits.finds_function {arity : Nat} {g : Signature} (h : p.Fits c s latest)
    (hg : p.context.findFunction key arity = some g) : ∃ (n : Nat) (f : Callable),
      s.findFunction (p.env c.root) key arity = some n ∧ s.functions[n]? = some f ∧
        Fulfils c f g := by
  induction h with
  | globals room own names offers =>
    rename_i S
    have hl : S.functions.lookup (key, arity) = some g := by
      simp only [Scope.context, Context.findFunction, Context.blocks, List.findSome?_cons,
        List.findSome?_nil] at hg
      split at hg
      · cases hg
        assumption
      · contradiction
    obtain ⟨n, f, hn, hf⟩ := offers _ _ hl
    exact ⟨n, f, by simp [Store.findFunction, Scope.env, Env.chain, hn], hf⟩
  | inside outer room apart bare own uncaught names ih =>
    rw [findFunction_inside] at hg
    obtain ⟨n, f, hn, hf⟩ := ih hg
    refine ⟨n, f, ?_, hf⟩
    simp only [Store.findFunction, Scope.env, Env.chain, List.findSome?_cons, bare,
      List.lookup_nil]
    exact hn

theorem Course.Stands.frame {block : Nat} (h : c.Stands s latest block key b) (grows : s.Grows s')
    (same : s'.block block = s.block block) (kept : latest' b.id = latest b.id) :
    c.Stands s' latest' block key b := by
  obtain ⟨n, x, hc, hl, hx, ht⟩ := h
  obtain ⟨y, hy, he⟩ := grows.vars n x hx
  exact ⟨n, y, by rwa [caught, same], kept.trans hl, hy, fun d => he.trans (ht d)⟩

theorem Offers.frame {S : StaticBlock} (h : Offers c s S) (grows : s.Grows s')
    (same : (s'.block c.root).functions = (s.block c.root).functions) : Offers c s' S := by
  intro key g hg
  obtain ⟨n, f, hn, hf, hd⟩ := h key g hg
  exact ⟨n, f, by rwa [same], grows.functions n f hf, hd⟩

theorem mem_context_inside {block : StaticBlock} (h : block ∈ p.context.blocks) :
    block ∈ (Scope.inside l p).context.blocks :=
  List.mem_cons_of_mem _ h

/-- What does not touch the blocks around a point leaves them fit. -/
theorem Scope.Fits.frame (h : p.Fits c s latest) (grows : s.Grows s')
    (same : ∀ n, n = c.root ∨ n ∈ p.inner → s'.block n = s.block n)
    (kept : ∀ block ∈ p.context.blocks, ∀ key b, block.vars.lookup key = some b →
      latest' b.id = latest b.id) : p.Fits c s' latest' := by
  induction h with
  | globals room own names offers =>
    have root := same c.root (Or.inl rfl)
    refine .globals (Nat.lt_of_lt_of_le room grows.blocks) (fun key b hb => ?_) (fun key hk => ?_)
      (offers.frame grows (by rw [root]))
    · exact (own key b hb).frame grows root (kept _ List.mem_cons_self key b hb)
    · rw [root]
      exact names key hk
  | inside outer room apart bare own uncaught names ih =>
    rename_i l p
    have here := same l.block (Or.inr List.mem_cons_self)
    refine .inside (ih ?_ ?_) (Nat.lt_of_lt_of_le room grows.blocks) apart (by rwa [here])
      (fun key b hb => ?_) (fun hu key b hb => ?_) fun hl key hk => ?_
    · exact fun n hn => same n (hn.imp id (List.mem_cons_of_mem _))
    · exact fun block hm => kept block (mem_context_inside hm)
    · exact (own key b hb).frame grows here (kept _ List.mem_cons_self key b hb)
    · rw [Course.caught, here]
      exact uncaught hu key b hb
    · rw [here]
      exact names hl key hk

/-- What a block has for a variable the checker knows, once a variable was added. -/
theorem caught_add {env : Env} {other : Key} {b' : Binding} {x : Variable} {block : Nat}
    (room : env.block < s.blocks.size) :
    c.caught (s.add env key x (c.mark b)) block other b' =
      if block = env.block ∧ (if c.byName then other = key else b'.id = b.id) then
        some s.vars.size
      else c.caught s block other b' := by
  unfold Course.caught Course.mark
  rw [Store.block_add room]
  by_cases hb : block = env.block
  · by_cases hn : c.byName = true <;> simp [hb, hn, Table.lookup_put]
  · simp [hb]

/-- The variable that is added stands for the one that the checker met. -/
theorem stands_new {env : Env} {x : Variable} (room : env.block < s.blocks.size)
    (made : latest' b.id = some s.vars.size) (typed : c.demands.typed → x.type = some b.type) :
    c.Stands (s.add env key x (c.mark b)) latest' env.block key b := by
  refine ⟨s.vars.size, x, ?_, made, Store.var_add, typed⟩
  rw [caught_add room]
  simp

/-- The other variables of its block stay. -/
theorem Course.Stands.add {env : Env} {x : Variable} {other : Key} {b' : Binding}
    (h : c.Stands s latest env.block other b') (room : env.block < s.blocks.size)
    (hk : other ≠ key) (hi : b'.id ≠ b.id) (kept : latest' b'.id = latest b'.id) :
    c.Stands (s.add env key x (c.mark b)) latest' env.block other b' := by
  obtain ⟨n, y, hc, hl, hy, ht⟩ := h
  obtain ⟨z, hz, he⟩ := Store.grows_add.vars n y hy
  refine ⟨n, z, ?_, kept.trans hl, hz, fun d => he.trans (ht d)⟩
  rw [caught_add room]
  simpa [hk, hi] using hc

end

/-- The scope behind the declaration of a variable in the innermost block. -/
def Scope.declare (key : Key) (b : Binding) : Scope → Scope
  | globals S => globals { S with vars := S.vars.put key b }
  | inside l p => inside { l with vars := l.vars.put key b } p

section

variable {c : Course} {s : Store} {latest latest' : DeclId → Option Nat} {p : Scope}
  {key : Key} {b : Binding} {Γ' : Context}

theorem Scope.context_declare (adds : p.context.Adds key b Γ') :
    (p.declare key b).context = Γ' := by
  rw [adds.eq]
  cases p <;> rfl

/-- A loop that runs by name declares no name that is visible outside it. -/
def Scope.Clear (c : Course) (key : Key) : Scope → Prop
  | globals _ => True
  | inside l p => l.loop = true → c.byName = true → p.context.findVariable key = none

theorem Scope.Fits.room (h : p.Fits c s latest) : (p.env c.root).block < s.blocks.size := by
  cases h <;> assumption

/-- A declaration adds a variable that fits what the checker knows behind it. -/
theorem Scope.Fits.declare {x : Variable} (h : p.Fits c s latest) (adds : p.context.Adds key b Γ')
    (clear : p.Clear c key) (made : latest' b.id = some s.vars.size)
    (kept : ∀ id, id ≠ b.id → latest' id = latest id)
    (typed : c.demands.typed → x.type = some b.type) :
    (p.declare key b).Fits c (s.add (p.env c.root) key x (c.mark b)) latest' := by
  have room := h.room
  have fresh := adds.fresh
  have own_kept {block : Table Key Binding}
      (own : ∀ k c', block.lookup k = some c' → c.Stands s latest (p.env c.root).block k c')
      (ids : ∀ k c', block.lookup k = some c' → c'.id ≠ b.id) (k : Key) (c' : Binding)
      (hl : (block.put key b).lookup k = some c') :
      c.Stands (s.add (p.env c.root) key x (c.mark b)) latest' (p.env c.root).block k c' := by
    rw [Table.lookup_put] at hl
    split at hl
    · rename_i he
      obtain rfl := beq_iff_eq.1 he
      obtain rfl := Option.some.inj hl
      exact stands_new room made typed
    · rename_i he
      have hi := ids k c' hl
      exact (own k c' hl).add room (by simpa using he) hi (kept _ hi)
  cases h with
  | globals room own names offers =>
    refine .globals (Nat.lt_of_lt_of_le room Store.grows_add.blocks)
      (own_kept own (fresh _ List.mem_cons_self)) (fun k hk => ?_) (offers.frame Store.grows_add ?_)
    · rw [Table.lookup_put] at hk
      split at hk
      · contradiction
      · rename_i he
        rw [Store.block_add room]
        simp only [Scope.env, ↓reduceIte, Table.lookup_put, he]
        exact names k hk
    · rw [Store.block_add room]
      simp only [Scope.env, ↓reduceIte]
  | inside outer room apart bare own uncaught names =>
    rename_i l p
    refine .inside (outer.frame Store.grows_add (fun n hn => ?_) fun block hm k c' hl => ?_)
      (Nat.lt_of_lt_of_le room Store.grows_add.blocks) apart ?_
      (own_kept own (fresh _ List.mem_cons_self)) (fun hu k c' hl => ?_) fun hl k hk => ?_
    · rw [Store.block_add room, if_neg]
      rintro rfl
      exact hn.elim apart.1 apart.2
    · exact kept _ (fresh block (mem_context_inside hm) k c' hl)
    · rw [Store.block_add room]
      simp only [Scope.env, ↓reduceIte, bare]
    · rw [caught_add room, if_neg]
      · exact uncaught hu k c' hl
      · rintro ⟨-, he⟩
        split at he
        · rename_i named
          subst he
          rcases hu with looping | byId
          · rw [clear looping named] at hl
            contradiction
          · rw [named] at byId
            contradiction
        · obtain ⟨block, hm, hf⟩ := List.exists_of_findSome?_eq_some hl
          exact fresh block (mem_context_inside hm) k c' hf he
    · rw [Table.lookup_put] at hk
      split at hk
      · contradiction
      · rename_i he
        rw [Store.block_add room]
        simp only [Scope.env, ↓reduceIte, Table.lookup_put, he]
        exact names hl k hk

/-- The blocks around a point are there. -/
theorem Scope.Fits.block_lt (h : p.Fits c s latest) {n : Nat} (hn : n = c.root ∨ n ∈ p.inner) :
    n < s.blocks.size := by
  induction h with
  | globals room =>
    rcases hn with rfl | hn
    · exact room
    · contradiction
  | inside _ room _ _ _ _ _ ih =>
    rcases hn with rfl | hn
    · exact ih (Or.inl rfl)
    · rcases List.mem_cons.1 hn with rfl | hn
      · exact room
      · exact ih (Or.inr hn)

/-- A new block inside others has nothing yet. -/
theorem Scope.Fits.open (h : p.Fits c s latest) (loop : Bool) :
    (Scope.inside ⟨s.blocks.size, [], loop⟩ p).Fits c (s.openBlock (p.env c.root)).1 latest := by
  have new : (s.openBlock (p.env c.root)).1.block s.blocks.size = {} := by
    rw [Store.block_openBlock, Store.block_new]
  refine .inside (h.frame (Store.grows_openBlock _ _) (fun n _ => Store.block_openBlock _ _ n)
    fun _ _ _ _ _ => rfl) (by simp [Store.openBlock]) ⟨?_, ?_⟩ (by rw [new]) ?_ ?_ ?_
  · exact (Nat.ne_of_lt (h.block_lt (Or.inl rfl))).symm
  · exact fun hm => Nat.lt_irrefl _ (h.block_lt (Or.inr hm))
  · exact fun key b hb => by cases hb
  · intro _ key b _
    simp only [Course.caught, new]
    split <;> rfl
  · intro _ key _
    rw [new]
    rfl

theorem Scope.Fits.outer {l : Level} (h : (Scope.inside l p).Fits c s latest) :
    p.Fits c s latest := by
  cases h
  assumption

/-- A round of a loop begins where the round before has left variables. -/
theorem Scope.Fits.again {l : Level} (h : (Scope.inside l p).Fits c s latest)
    (hl : l.loop = true) : (Scope.inside { l with vars := [] } p).Fits c s latest := by
  cases h with
  | inside outer room apart bare own uncaught names =>
    refine .inside outer room apart bare (fun key b hb => by cases hb) uncaught fun hf => ?_
    rw [hl] at hf
    contradiction

end

end PlcLang
