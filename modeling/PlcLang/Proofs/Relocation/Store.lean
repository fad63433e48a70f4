import PlcLang.Machine.World
import PlcLang.Proofs.Relocation.Values
import PlcLang.Proofs.Running.Storage

namespace PlcLang

/-! Tables of which each entry has been replaced by another. -/

section

variable {κ κ' ν ν' : Type} [BEq κ] [LawfulBEq κ] [BEq κ'] [LawfulBEq κ'] {f : κ → κ'}

/-- Keys stay apart, so each is found where it was. -/
theorem lookup_map (injective : Function.Injective f) (g : ν → ν') (t : Table κ ν) (key : κ) :
    (t.map (Prod.map f g)).lookup (f key) = (t.lookup key).map g := by
  induction t with
  | nil => rfl
  | cons entry rest ih =>
    obtain ⟨k, v⟩ := entry
    simp only [List.map_cons, Prod.map, List.lookup_cons, ih]
    by_cases same : key = k
    · subst same
      simp only [beq_self_eq_true]
      rfl
    · rw [beq_eq_false_iff_ne.2 same, beq_eq_false_iff_ne.2 (injective.ne same)]

theorem put_map (injective : Function.Injective f) (g : ν → ν') (t : Table κ ν) (key : κ) (v : ν) :
    Table.put (f key) (g v) (t.map (Prod.map f g)) = (t.put key v).map (Prod.map f g) := by
  induction t with
  | nil => rfl
  | cons entry rest ih =>
    obtain ⟨k, u⟩ := entry
    simp only [List.map_cons, Prod.map, Table.put, ih]
    by_cases same : k = key
    · subst same
      simp only [beq_self_eq_true, ↓reduceIte, List.map_cons, Prod.map]
    · rw [beq_eq_false_iff_ne.2 same, beq_eq_false_iff_ne.2 (injective.ne same)]
      rfl

end

def DeclId.relocate (r : Relocation) (id : DeclId) : DeclId :=
  ⟨id.check + r.checks, r.label id.label⟩

def Binding.relocate (r : Relocation) (b : Binding) : Binding :=
  { b with id := b.id.relocate r }

def Env.relocate (r : Relocation) (env : Env) : Env :=
  ⟨r.base.blocks.size + env.block, env.outer.map (r.base.blocks.size + ·)⟩

def Variable.relocate (r : Relocation) (x : Variable) : Variable :=
  { x with value := x.value.relocate r }

def Body.relocate (r : Relocation) : Body → Body
  | .print => .print
  | .code parameters statements home =>
    .code (parameters.map (Declared.map r.label)) (statements.map r.label) (home.relocate r)

def Callable.relocate (r : Relocation) (f : Callable) : Callable :=
  { f with body := f.body.relocate r }

def Block.relocate (r : Relocation) (b : Block) : Block where
  vars := b.vars.map (Prod.map id (r.base.vars.size + ·))
  functions := b.functions.map (Prod.map id (r.base.functions.size + ·))
  bindings := b.bindings.map (Prod.map (DeclId.relocate r) (r.base.vars.size + ·))

/-- All that a run has made, behind what is there already. -/
def Store.relocate (r : Relocation) (s : Store) : Store where
  blocks := r.base.blocks ++ s.blocks.map (Block.relocate r)
  vars := r.base.vars ++ s.vars.map (Variable.relocate r)
  functions := r.base.functions ++ s.functions.map (Callable.relocate r)
  lists := s.lists.relocate r

def World.relocate (r : Relocation) (w : World) : World :=
  { w with store := w.store.relocate r }

/-- What is known of the variables of nodes is known of them also with the other identities. -/
def Relocation.Binds (r : Relocation) (found found' : Annotations) : Prop :=
  ∀ label, (found'.of (r.label label)).binding = (found.of label).binding.map (Binding.relocate r)

/-- That a name is none has nothing to do with a node. -/
theorem plain_of_key {r : Relocation} {name : Json} {f : Fault} (h : name.key = .error f) :
    f.relocate r = f := by
  unfold Json.key at h
  split at h
  · cases h
  · cases h
    rfl

theorem DeclId.relocate_injective (r : Relocation) : Function.Injective (DeclId.relocate r) := by
  intro i j same
  cases i
  cases j
  simp only [DeclId.relocate, DeclId.mk.injEq, Nat.add_right_cancel_iff] at same
  rw [same.1, r.injective same.2]

namespace Store

variable {r : Relocation} {s : Store} {env : Env} {key : Key}

theorem block_relocate (n : Nat) :
    (s.relocate r).block (r.base.blocks.size + n) = (s.block n).relocate r := by
  simp only [block, relocate, getElem?_behind]
  cases s.blocks[n]? <;> rfl

theorem chain_relocate : (env.relocate r).chain = env.chain.map (r.base.blocks.size + ·) := rfl

theorem findVariable_relocate :
    (s.relocate r).findVariable (env.relocate r) key =
      (s.findVariable env key).map (r.base.vars.size + ·) := by
  simp only [findVariable, chain_relocate, List.findSome?_map, List.map_findSome?]
  refine congrArg (List.findSome? · _) (funext fun b => ?_)
  simp only [Function.comp_apply, block_relocate]
  exact lookup_map Function.injective_id _ _ key

theorem findBinding_relocate (id : DeclId) :
    (s.relocate r).findBinding (env.relocate r) (id.relocate r) =
      (s.findBinding env id).map (r.base.vars.size + ·) := by
  simp only [findBinding, chain_relocate, List.findSome?_map, List.map_findSome?]
  refine congrArg (List.findSome? · _) (funext fun b => ?_)
  simp only [Function.comp_apply, block_relocate]
  exact lookup_map (DeclId.relocate_injective r) _ _ id

theorem findFunction_relocate (arity : Nat) :
    (s.relocate r).findFunction (env.relocate r) key arity =
      (s.findFunction env key arity).map (r.base.functions.size + ·) := by
  simp only [findFunction, chain_relocate, List.findSome?_map, List.map_findSome?]
  refine congrArg (List.findSome? · _) (funext fun b => ?_)
  simp only [Function.comp_apply, block_relocate]
  exact lookup_map Function.injective_id _ _ (key, arity)

theorem resolve_relocate (binding : Option Binding) (name : Json) :
    (s.relocate r).resolve (env.relocate r) ((binding.map (Binding.relocate r)).map (·.id)) name =
      (s.resolve env (binding.map (·.id)) name).map (Option.map (r.base.vars.size + ·)) := by
  cases binding with
  | none =>
    simp only [resolve, Option.map_none, Option.map_map]
    refine congrArg (Option.map · _) (funext fun key => ?_)
    exact findVariable_relocate
  | some b => exact congrArg some (findBinding_relocate b.id)

theorem taken_relocate : (s.relocate r).taken (env.relocate r) key = s.taken env key := by
  simp only [taken, Table.has, Env.relocate, block_relocate]
  have same := lookup_map Function.injective_id (r.base.vars.size + ·)
    (s.block env.block).vars key
  exact (congrArg Option.isSome same).trans Option.isSome_map

theorem openBlock_relocate : (s.relocate r).openBlock (env.relocate r) =
    ((s.openBlock env).1.relocate r, (s.openBlock env).2.relocate r) := by
  simp only [openBlock, relocate, Env.relocate, size_behind]
  refine congrArg₂ Prod.mk ?_ rfl
  rw [← push_behind]
  rfl

theorem add_relocate (x : Variable) (binding : Option Binding) :
    (s.relocate r).add (env.relocate r) key (x.relocate r)
        ((binding.map (Binding.relocate r)).map (·.id)) =
      (s.add env key x (binding.map (·.id))).relocate r := by
  simp only [add, relocate, size_behind, push_behind, Env.relocate, Store.mk.injEq, and_true]
  refine modify_behind (fun b => ?_) _ _ _
  simp only [Block.relocate, Block.mk.injEq, true_and]
  refine ⟨(put_map Function.injective_id _ _ key _).symm, ?_⟩
  cases binding with
  | none => rfl
  | some binding => exact (put_map (DeclId.relocate_injective r) _ _ binding.id _).symm

theorem setValue_relocate (n : Nat) (v : Value) :
    (s.relocate r).setValue (r.base.vars.size + n) (v.relocate r) = (s.setValue n v).relocate r := by
  simp only [setValue, relocate, Store.mk.injEq, and_true, true_and]
  refine modify_behind (fun x => ?_) _ _ _
  rfl

theorem newList_relocate (items : Array Value) :
    (s.relocate r).newList (items.map (Value.relocate r)) =
      ((s.newList items).1.relocate r, r.base.lists.size + (s.newList items).2) := by
  simp only [newList, relocate, Lists.relocate, size_behind, Prod.mk.injEq, and_true]
  rw [push_behind fun items : Array Value => items.map (Value.relocate r)]

theorem setElement_relocate (address index : Nat) (v : Value) :
    (s.relocate r).setElement (r.base.lists.size + address) index (v.relocate r) =
      (s.setElement address index v).relocate r := by
  simp only [setElement, relocate, Store.mk.injEq, true_and]
  refine modify_behind (fun items => ?_) _ _ _
  exact Array.map_setIfInBounds

theorem defineFunction_relocate (f : Callable) :
    (s.relocate r).defineFunction (env.relocate r) key (f.relocate r) =
      (s.defineFunction env key f).map
        (Prod.map (Store.relocate r) (r.base.functions.size + ·)) := by
  have taken : ((s.relocate r).block (env.relocate r).block).functions.has (key, f.arity) =
      (s.block env.block).functions.has (key, f.arity) := by
    simp only [Table.has, Env.relocate, block_relocate]
    have same := lookup_map Function.injective_id (r.base.functions.size + ·)
      (s.block env.block).functions (key, f.arity)
    exact (congrArg Option.isSome same).trans Option.isSome_map
  have arity : (f.relocate r).arity = f.arity := rfl
  simp only [defineFunction, taken, arity]
  split
  · rfl
  · simp only [relocate, size_behind, push_behind, Env.relocate, Option.map_some, Prod.map,
      Option.some.injEq, Prod.mk.injEq, Store.mk.injEq, and_true]
    refine modify_behind (fun b => ?_) _ _ _
    simp only [Block.relocate, Block.mk.injEq, true_and, and_true]
    exact (put_map Function.injective_id _ _ (key, f.arity) _).symm

theorem openRoot_relocate :
    (s.relocate r).openRoot = (s.openRoot.1.relocate r, s.openRoot.2.relocate r) := by
  simp only [openRoot, relocate, size_behind]
  refine congrArg₂ Prod.mk ?_ rfl
  rw [← push_behind]
  rfl

theorem addStandard_relocate :
    (s.relocate r).addStandard (env.relocate r) = (s.addStandard env).relocate r := by
  have defined : (s.relocate r).defineFunction (env.relocate r) (.text "print")
      (Callable.relocate r ⟨.string "print", 1, [.any], some .nil, .print⟩) = _ :=
    defineFunction_relocate _
  simp only [Callable.relocate, Body.relocate] at defined
  simp only [addStandard, defined]
  cases s.defineFunction env (.text "print") ⟨.string "print", 1, [.any], some .nil, .print⟩ <;>
    rfl

end Store

namespace World

variable {r : Relocation} {w : World} {env : Env} {key : Key} {v : Value}

theorem text_relocate (settings : Settings) (v : Value) :
    (w.relocate r).text settings (v.relocate r) = r.result id (w.text settings v) :=
  Lists.text_relocate ..

theorem openBlock_relocate : (w.relocate r).openBlock (env.relocate r) =
    ((w.openBlock env).1.relocate r, (w.openBlock env).2.relocate r) := by
  simp only [openBlock, relocate, Store.openBlock_relocate]

theorem add_relocate (name : Json) (binding : Option Binding) (isMutable : Bool) :
    (w.relocate r).add (env.relocate r) key name (binding.map (Binding.relocate r)) isMutable
        (v.relocate r) = (w.add env key name binding isMutable v).relocate r := by
  have type : (binding.map (Binding.relocate r)).map (·.type) = binding.map (·.type) := by
    rw [Option.map_map]
    rfl
  simp only [add, relocate, type]
  rw [← Store.add_relocate]
  rfl

theorem addFree_relocate (name : Json) (binding : Option Binding) (isMutable : Bool)
    (subject : Option (Node Label)) :
    (w.relocate r).addFree (env.relocate r) name (binding.map (Binding.relocate r)) isMutable
        (v.relocate r) (subject.map (Node.map r.label)) =
      r.result (World.relocate r) (w.addFree env name binding isMutable v subject) := by
  cases isName : name.key with
  | error f =>
    simp only [addFree, isName]
    exact congrArg Except.error (plain_of_key isName).symm
  | ok key =>
    have taken : (w.relocate r).store.taken (env.relocate r) key = w.store.taken env key :=
      Store.taken_relocate
    rw [addFree_eq isName, addFree_eq isName, taken, add_relocate]
    split <;> rfl

/-- Parameters with their arguments become variables of a block, up to the same one. -/
theorem bind_relocate {found found' : Annotations} (binds : r.Binds found found')
    (arguments : List (Declared Label × Value)) :
    (w.relocate r).bind (env.relocate r) found'
        (arguments.map (Prod.map (Declared.map r.label) (Value.relocate r))) =
      Prod.map (World.relocate r) (Option.map (Fault.relocate r)) (w.bind env found arguments) := by
  induction arguments generalizing w with
  | nil => rfl
  | cons argument rest ih =>
    obtain ⟨p, a⟩ := argument
    have name : (p.map r.label).name = p.name := rfl
    have label : (p.map r.label).label = r.label p.label := rfl
    simp only [List.map_cons, Prod.map, bind, name, label]
    cases isName : p.name.key with
    | error f => exact congrArg (Prod.mk _ ∘ some) (plain_of_key isName).symm
    | ok key =>
      have taken : (w.relocate r).store.taken (env.relocate r) key = w.store.taken env key :=
        Store.taken_relocate
      simp only [taken]
      split
      · rfl
      · rw [binds, add_relocate]
        exact ih

end World

end PlcLang
