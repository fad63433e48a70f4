import PlcLang.Machine.World
import PlcLang.Proofs.Values.Admitted

namespace PlcLang

/-- What is in a store stays there: blocks, variables of their types, and functions. -/
structure Store.Grows (s s' : Store) : Prop where
  blocks : s.blocks.size ≤ s'.blocks.size
  vars : ∀ (n : Nat) (v : Variable), s.vars[n]? = some v →
    ∃ v' : Variable, s'.vars[n]? = some v' ∧ v'.type = v.type
  functions : ∀ (n : Nat) (f : Callable), s.functions[n]? = some f → s'.functions[n]? = some f

namespace Store

variable {s s' s'' : Store} {env : Env} {key : Key} {x : Variable} {id : Option DeclId} {n : Nat}
  {v : Value}

theorem Grows.refl : s.Grows s :=
  ⟨Nat.le_refl _, fun _ v h => ⟨v, h, rfl⟩, fun _ _ h => h⟩

theorem Grows.trans (h : s.Grows s') (h' : s'.Grows s'') : s.Grows s'' := by
  refine ⟨Nat.le_trans h.blocks h'.blocks, fun n v hv => ?_, fun n f hf => ?_⟩
  · obtain ⟨w, hw, ht⟩ := h.vars n v hv
    obtain ⟨u, hu, ht'⟩ := h'.vars n w hw
    exact ⟨u, hu, ht'.trans ht⟩
  · exact h'.functions n f (h.functions n f hf)

/-- A new block is empty, as if it had been there before. -/
theorem block_openBlock (s : Store) (env : Env) (n : Nat) :
    (s.openBlock env).1.block n = s.block n := by
  simp only [openBlock, block, Array.getElem?_push]
  split
  · rename_i he
    rw [he, Array.getElem?_eq_none (Nat.le_refl _)]
    rfl
  · rfl

theorem block_new (s : Store) : s.block s.blocks.size = {} := by
  simp [block]

theorem grows_openBlock (s : Store) (env : Env) : s.Grows (s.openBlock env).1 :=
  ⟨by simp [openBlock], fun _ v h => ⟨v, h, rfl⟩, fun _ _ h => h⟩

/-- A block after a variable was added to one. -/
theorem block_add (h : env.block < s.blocks.size) :
    (s.add env key x id).block n =
      if n = env.block then
        { s.block n with
          vars := (s.block n).vars.put key s.vars.size
          bindings := match id with
            | some id => (s.block n).bindings.put id s.vars.size
            | none => (s.block n).bindings }
      else s.block n := by
  simp only [add, block, Array.getElem?_modify]
  by_cases he : n = env.block
  · subst he
    rw [if_pos rfl, if_pos rfl, Array.getElem?_eq_getElem h]
    rfl
  · simp [he, Ne.symm he]

theorem block_add_other (h : n ≠ env.block) : (s.add env key x id).block n = s.block n := by
  simp only [add, block, Array.getElem?_modify]
  rw [if_neg h.symm]

theorem grows_add : s.Grows (s.add env key x id) := by
  refine ⟨by simp [add], fun n v hv => ⟨v, ?_, rfl⟩, fun _ _ h => h⟩
  obtain ⟨hn, _⟩ := Array.getElem?_eq_some_iff.1 hv
  simp only [add, Array.getElem?_push]
  rw [if_neg (Nat.ne_of_lt hn), hv]

theorem var_add : (s.add env key x id).vars[s.vars.size]? = some x := by
  simp [add]

theorem grows_setValue : s.Grows (s.setValue n v) := by
  refine ⟨Nat.le_refl _, fun m w hw => ?_, fun _ _ h => h⟩
  simp only [setValue, Array.getElem?_modify, hw]
  split
  · exact ⟨_, rfl, rfl⟩
  · exact ⟨w, rfl, rfl⟩

/-- Lists do not matter to what names stand for. -/
theorem grows_lists {lists : Lists} : s.Grows { s with lists := lists } :=
  ⟨Nat.le_refl _, fun _ v h => ⟨v, h, rfl⟩, fun _ _ h => h⟩

/-- A function whose name is free gets the next number. -/
theorem defineFunction_eq {f : Callable} (room : env.block < s.blocks.size)
    (free : (s.block env.block).functions.lookup (key, f.arity) = none) :
    ∃ s', s.defineFunction env key f = some (s', s.functions.size) ∧ s'.vars = s.vars ∧
      s'.functions = s.functions.push f ∧ s'.blocks.size = s.blocks.size ∧
      ∀ n, s'.block n = if n = env.block then
        { s.block n with
          functions := (s.block n).functions.put (key, f.arity) s.functions.size }
      else s.block n := by
  refine ⟨{ s with
    functions := s.functions.push f
    blocks := s.blocks.modify env.block fun b =>
      { b with functions := b.functions.put (key, f.arity) s.functions.size } },
    ?_, rfl, rfl, by simp, fun n => ?_⟩
  · simp only [defineFunction, Table.has, free, Option.isSome_none, Bool.false_eq_true, ↓reduceIte]
  · simp only [block, Array.getElem?_modify]
    by_cases he : n = env.block
    · subst he
      simp only [↓reduceIte, Array.getElem?_eq_getElem room, Option.map_some, Option.getD_some]
    · simp [he, Ne.symm he]

theorem lists_defineFunction {f : Callable} (h : s.defineFunction env key f = some (s', n)) :
    s'.lists = s.lists := by
  unfold defineFunction at h
  simp only at h
  split at h
  · contradiction
  · cases h
    rfl

/-- A function is looked for in a single block. -/
theorem findFunction_root {block arity : Nat} :
    s.findFunction ⟨block, []⟩ key arity = (s.block block).functions.lookup (key, arity) := by
  simp only [findFunction, Env.chain, List.findSome?_cons, List.findSome?_nil]
  cases (s.block block).functions.lookup (key, arity) <;> rfl

/-- Every variable whose type is known has a value of it. -/
def Sorted (s : Store) : Prop :=
  ∀ (n : Nat) (x : Variable) (t : Ty), s.vars[n]? = some x → x.type = some t →
    t.admits x.value.tag = true

theorem Sorted.add (h : s.Sorted) (hx : ∀ t, x.type = some t → t.admits x.value.tag = true) :
    (s.add env key x id).Sorted := by
  intro n y t hy ht
  simp only [Store.add, Array.getElem?_push] at hy
  split at hy
  · cases hy
    exact hx t ht
  · exact h n y t hy ht

theorem Sorted.setValue (h : s.Sorted)
    (hv : ∀ (x : Variable) (t : Ty), s.vars[n]? = some x → x.type = some t →
      t.admits v.tag = true) :
    (s.setValue n v).Sorted := by
  intro m y t hy ht
  simp only [Store.setValue, Array.getElem?_modify] at hy
  split at hy
  · rename_i he
    subst he
    obtain ⟨x, hx, rfl⟩ := Option.map_eq_some_iff.1 hy
    exact hv x t hx ht
  · exact h m y t hy ht

end Store

/-- A variable is added if its name is free. -/
theorem World.addFree_eq {w : World} {env : Env} {key : Key} {name : Json}
    {binding : Option Binding} {isMutable : Bool} {value : Value} {subject : Option (Node Label)}
    (isName : name.key = .ok key) :
    w.addFree env name binding isMutable value subject =
      if w.store.taken env key then .error (.ofCause (.duplicateVariable .run name) subject)
      else .ok (w.add env key name binding isMutable value) := by
  simp only [World.addFree, isName, Bind.bind, Except.bind]
  cases w.store.taken env key <;> rfl

end PlcLang
