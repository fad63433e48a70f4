import PlcLang.Proofs.Running.Storage

/-! What the scopes of running programs answer, told from what was asked of them before. -/

namespace PlcLang

section

variable {κ : Type} [BEq κ]

theorem eraseDups_of_nodup [LawfulBEq κ] {l : List κ} (h : l.Nodup) : l.eraseDups = l := by
  induction l with
  | nil => rfl
  | cons a l ih =>
    obtain ⟨new, rest⟩ := List.nodup_cons.1 h
    have kept : l.filter (fun b => !b == a) = l := by
      rw [List.filter_eq_self]
      intro b mem
      rw [Bool.not_eq_eq_eq_not, Bool.not_true, beq_eq_false_iff_ne]
      exact fun same => new (same ▸ mem)
    rw [List.eraseDups_cons, kept, ih rest]

/-- A table holds what was put in, the entries the latest first: for each key the last number, and
the keys in order of their first entries, none of them twice. -/
structure Table.Holds (t : Table κ Nat) (entries : List (κ × Nat)) : Prop where
  lookup : ∀ key, t.lookup key = entries.lookup key
  keys : t.keys = (entries.map (·.1)).reverse.eraseDups
  nodup : t.keys.Nodup

theorem Table.holds_nil : Table.Holds ([] : Table κ Nat) [] :=
  ⟨fun _ => rfl, rfl, List.nodup_nil⟩

theorem Table.Holds.put [LawfulBEq κ] {t : Table κ Nat} {entries : List (κ × Nat)}
    (h : t.Holds entries) (key : κ) (n : Nat) :
    Table.Holds (t.put key n) ((key, n) :: entries) := by
  have listed : key ∈ (entries.map (·.1)).reverse ↔ key ∈ t.keys := by
    rw [h.keys, List.mem_eraseDups]
  refine ⟨fun other => ?_, ?_, ?_⟩
  · rw [Table.lookup_put, List.lookup_cons, h.lookup]
    cases other == key <;> rfl
  · rw [Table.keys_put, List.map_cons, List.reverse_cons, List.eraseDups_append, ← h.keys]
    by_cases mem : key ∈ t.keys
    · rw [if_pos mem, List.removeAll, List.filter_cons_of_neg (by simpa using listed.2 mem)]
      exact (List.append_nil _).symm
    · rw [if_neg mem, List.removeAll,
        List.filter_cons_of_pos (by simpa using fun found => mem (listed.1 found))]
      rfl
  · rw [Table.keys_put]
    split
    · exact h.nodup
    · rename_i new
      rw [List.nodup_append]
      refine ⟨h.nodup, List.pairwise_singleton .., fun a mem b only same => new ?_⟩
      rwa [← List.mem_singleton.1 only, ← same]

end

namespace Scoping

/-! ### What is asked of scopes -/

/-- A value that can be a name. -/
structure Name where
  written : Json
  key : Key
  isName : written.key? = some key

/-- What a scope is to define a variable with: by name, and by its declaration if that is known. A
name that is redefined need not be free. -/
structure Definition where
  name : Name
  type : Option Ty
  isMutable : Bool
  value : Value
  binding : Option DeclId
  redefine : Bool

/-- What a scope is to define a function with. -/
structure Header where
  name : Name
  arity : Nat
  parameters : List Ty
  returns : Option Ty
  body : Body

inductive Request where
  | child
  | define (d : Definition)
  | defineFunction (f : Header)
  | lookup (name : Name)
  | resolve (binding : Option DeclId) (name : Name)
  | lookupFunction (name : Name) (arity : Nat)

/-- The number of a scope, a variable or a function. -/
inductive Answer where
  | scope (n : Nat)
  | cell (n : Nat)
  | function (n : Nat)
deriving DecidableEq

/-- What a definition makes a variable of. -/
def Definition.cell (d : Definition) : Variable :=
  ⟨d.name.written, d.type, d.isMutable, d.value⟩

def Header.callable (f : Header) : Callable :=
  ⟨f.name.written, f.arity, f.parameters, f.returns, f.body⟩

/-- What is found is the answer, else the failure. -/
def answered (found : Option Nat) (answer : Nat → Answer) (failure : Cause) :
    Except Cause Answer :=
  found.elim (.error failure) fun n => .ok (answer n)

end Scoping

open Scoping

/-- Scopes by number, and what they hold. -/
structure Scopes where
  store : Store
  envs : Array Env

namespace Scopes

/-- A single scope. -/
def start : Scopes :=
  ⟨(Store.openRoot {}).1, #[(Store.openRoot {}).2]⟩

def env (s : Scopes) (n : Nat) : Env :=
  s.envs[n]?.getD ⟨0, []⟩

/-- Asks something of a scope. -/
def perform (s : Scopes) (n : Nat) : Request → Scopes × Except Cause Answer
  | .child =>
    let (store, inner) := s.store.openBlock (s.env n)
    (⟨store, s.envs.push inner⟩, .ok (.scope s.envs.size))
  | .define d =>
    match s.store.define (s.env n) d.name.key d.cell d.binding d.redefine with
    | some (store, m) => ({ s with store }, .ok (.cell m))
    | none => (s, .error (.duplicateVariable .run d.name.written))
  | .defineFunction f =>
    match s.store.defineFunction (s.env n) f.name.key f.callable with
    | some (store, m) => ({ s with store }, .ok (.function m))
    | none => (s, .error (.duplicateFunction .run f.name.written f.arity))
  | .lookup name =>
    (s, answered (s.store.findVariable (s.env n) name.key) .cell
      (.undefinedVariable .run name.written))
  | .resolve binding name =>
    (s, answered (s.store.resolve (s.env n) binding name.written).join .cell
      (.undefinedVariable .run name.written))
  | .lookupFunction name arity =>
    (s, answered (s.store.findFunction (s.env n) name.key arity) .function
      (.undefinedFunction .run name.written arity))

end Scopes

namespace Scoping

/-! ### What was asked, and answered -/

/-- What was asked of a scope, and its answer. -/
structure Event where
  scope : Nat
  request : Request
  answer : Except Cause Answer

/-- The events since there was a single scope, the latest first. -/
abbrev History := List Event

namespace Event

/-- A new scope. -/
def opened? (e : Event) : Option Nat :=
  match e.answer with
  | .ok (.scope n) => some n
  | _ => none

/-- A new variable, and what it was defined with. -/
def defined? (e : Event) : Option (Definition × Nat) :=
  match e.request, e.answer with
  | .define d, .ok (.cell n) => some (d, n)
  | _, _ => none

/-- A new function, and what it was defined with. -/
def declared? (e : Event) : Option (Header × Nat) :=
  match e.request, e.answer with
  | .defineFunction f, .ok (.function n) => some (f, n)
  | _, _ => none

end Event

namespace History

/-- The scopes in which a name is looked for: the scope itself, the one that it was opened in, and
so on. -/
def chain : History → Nat → List Nat
  | [], n => [n]
  | e :: earlier, n =>
    if e.opened? = some n then n :: chain earlier e.scope else chain earlier n

def scopes (h : History) : Nat :=
  1 + (h.filterMap Event.opened?).length

/-- The variables by number. -/
def cells (h : History) : List Variable :=
  ((h.filterMap Event.defined?).map (·.1.cell)).reverse

/-- The functions by number. -/
def callables (h : History) : List Callable :=
  ((h.filterMap Event.declared?).map (·.1.callable)).reverse

/-- What was asked of a scope. -/
def ofScope (h : History) (n : Nat) : History :=
  h.filter (·.scope = n)

/-- The variables that a scope defined, by name. -/
def names (h : History) (n : Nat) : List (Key × Nat) :=
  ((h.ofScope n).filterMap Event.defined?).map fun p => (p.1.name.key, p.2)

/-- The variables that a scope defined for known declarations. -/
def bindings (h : History) (n : Nat) : List (DeclId × Nat) :=
  ((h.ofScope n).filterMap Event.defined?).filterMap fun p => p.1.binding.map (·, p.2)

def functions (h : History) (n : Nat) : List ((Key × Nat) × Nat) :=
  ((h.ofScope n).filterMap Event.declared?).map fun p => ((p.1.name.key, p.1.arity), p.2)

/-- The last entry for a key in the nearest scope that has one. -/
def nearest {κ : Type} [BEq κ] (h : History) (n : Nat) (entries : Nat → List (κ × Nat)) (key : κ) :
    Option Nat :=
  (h.chain n).findSome? fun b => (entries b).lookup key

/-- What the history tells a scope to answer. -/
def answer (h : History) (n : Nat) : Request → Except Cause Answer
  | .child => .ok (.scope h.scopes)
  | .define d =>
    if ((h.names n).lookup d.name.key).isSome && !d.redefine then
      .error (.duplicateVariable .run d.name.written)
    else .ok (.cell h.cells.length)
  | .defineFunction f =>
    if ((h.functions n).lookup (f.name.key, f.arity)).isSome then
      .error (.duplicateFunction .run f.name.written f.arity)
    else .ok (.function h.callables.length)
  | .lookup name | .resolve none name =>
    answered (h.nearest n h.names name.key) .cell (.undefinedVariable .run name.written)
  | .resolve (some id) name =>
    answered (h.nearest n h.bindings id) .cell (.undefinedVariable .run name.written)
  | .lookupFunction name arity =>
    answered (h.nearest n h.functions (name.key, arity)) .function
      (.undefinedFunction .run name.written arity)

end History

end Scoping

/-- Scopes after a sequence of requests, each of a scope that is there, failures among them. -/
inductive Scopes.Grown : Scopes → History → Prop
  | start : Grown .start []
  | step {s : Scopes} {h : History} {n : Nat} (grown : Grown s h) (known : n < s.envs.size)
      (r : Request) : Grown (s.perform n r).1 (⟨n, r, (s.perform n r).2⟩ :: h)

namespace Scoping.History

variable {h : History} {e : Event} {n m : Nat}

theorem head_chain (h : History) (n : Nat) : (h.chain n).head? = some n := by
  induction h with
  | nil => rfl
  | cons e earlier ih =>
    rw [chain]
    split
    · rfl
    · exact ih

theorem scopes_le (h later : History) : h.scopes ≤ scopes (later ++ h) := by
  rw [scopes, scopes, List.filterMap_append, List.length_append]
  omega

/-! ### A later event -/

theorem chain_cons_self (opened : e.opened? = some n) : chain (e :: h) n = n :: h.chain e.scope :=
  if_pos opened

theorem chain_cons_other (other : e.opened? ≠ some n) : chain (e :: h) n = h.chain n :=
  if_neg other

theorem ofScope_cons_other (other : e.scope ≠ n) : ofScope (e :: h) n = h.ofScope n :=
  List.filter_cons_of_neg (by simpa using other)

theorem ofScope_cons_self : ofScope (e :: h) e.scope = e :: h.ofScope e.scope :=
  List.filter_cons_of_pos (by simp)

/-- An event at another scope, or that made no variable, leaves the entries of a scope. -/
theorem names_cons_other (other : e.scope = n → e.defined? = none) :
    names (e :: h) n = h.names n ∧ bindings (e :: h) n = h.bindings n := by
  by_cases same : e.scope = n
  · subst same
    rw [names, bindings, ofScope_cons_self, List.filterMap_cons_none (other rfl)]
    exact ⟨rfl, rfl⟩
  · rw [names, bindings, ofScope_cons_other same]
    exact ⟨rfl, rfl⟩

theorem functions_cons_other (other : e.scope = n → e.declared? = none) :
    functions (e :: h) n = h.functions n := by
  by_cases same : e.scope = n
  · subst same
    rw [functions, ofScope_cons_self, List.filterMap_cons_none (other rfl)]
    rfl
  · rw [functions, ofScope_cons_other same]
    rfl

variable {d : Definition} {f : Header}

theorem names_cons_self (made : e.defined? = some (d, m)) :
    names (e :: h) e.scope = (d.name.key, m) :: h.names e.scope := by
  rw [names, ofScope_cons_self, List.filterMap_cons_some made]
  rfl

theorem bindings_cons_self (made : e.defined? = some (d, m)) :
    bindings (e :: h) e.scope = match d.binding with
      | some id => (id, m) :: h.bindings e.scope
      | none => h.bindings e.scope := by
  rw [bindings, ofScope_cons_self, List.filterMap_cons_some made]
  cases known : d.binding with
  | none => exact List.filterMap_cons_none (congrArg (Option.map (·, m)) known)
  | some id => exact List.filterMap_cons_some (congrArg (Option.map (·, m)) known)

theorem functions_cons_self (made : e.declared? = some (f, m)) :
    functions (e :: h) e.scope = ((f.name.key, f.arity), m) :: h.functions e.scope := by
  rw [functions, ofScope_cons_self, List.filterMap_cons_some made]
  rfl

end Scoping.History

namespace Scopes

variable {s : Scopes} {h : History} {e : Event} {n : Nat}

/-- Scopes hold what a history tells. -/
structure Keeps (s : Scopes) (h : History) : Prop where
  chains : ∀ n < s.envs.size, (s.env n).chain = h.chain n
  blocks : s.store.blocks.size = s.envs.size
  scopes : s.envs.size = h.scopes
  names : ∀ n, (s.store.block n).vars.Holds (h.names n)
  bindings : ∀ n, (s.store.block n).bindings.Holds (h.bindings n)
  functions : ∀ n, (s.store.block n).functions.Holds (h.functions n)
  once : ∀ n, ((h.functions n).map (·.1)).Nodup
  cells : s.store.vars.toList = h.cells
  callables : s.store.functions.toList = h.callables

theorem keeps_start : start.Keeps [] where
  chains n known := by
    obtain rfl : n = 0 := Nat.lt_one_iff.1 known
    rfl
  blocks := rfl
  scopes := rfl
  names n := by
    cases n <;> exact Table.holds_nil
  bindings n := by
    cases n <;> exact Table.holds_nil
  functions n := by
    cases n <;> exact Table.holds_nil
  once _ := List.nodup_nil
  cells := rfl
  callables := rfl

/-- The block of a scope has its number. -/
theorem Keeps.block_env (keeps : s.Keeps h) (known : n < s.envs.size) : (s.env n).block = n := by
  have head := congrArg List.head? (keeps.chains n known)
  rw [History.head_chain, Env.chain, List.head?_cons] at head
  exact Option.some.inj head

/-- An event that made nothing leaves what the history tells. -/
theorem Keeps.quiet (keeps : s.Keeps h) (opened : e.opened? = none) (defined : e.defined? = none)
    (declared : e.declared? = none) : s.Keeps (e :: h) where
  chains n known := by
    rw [keeps.chains n known, History.chain_cons_other]
    simp [opened]
  blocks := keeps.blocks
  scopes := by
    rw [keeps.scopes, History.scopes, History.scopes, List.filterMap_cons_none opened]
  names n := by
    rw [(History.names_cons_other fun _ => defined).1]
    exact keeps.names n
  bindings n := by
    rw [(History.names_cons_other fun _ => defined).2]
    exact keeps.bindings n
  functions n := by
    rw [History.functions_cons_other fun _ => declared]
    exact keeps.functions n
  once n := by
    rw [History.functions_cons_other fun _ => declared]
    exact keeps.once n
  cells := by
    rw [keeps.cells, History.cells, History.cells, List.filterMap_cons_none defined]
  callables := by
    rw [keeps.callables, History.callables, History.callables, List.filterMap_cons_none declared]

theorem env_push (s : Scopes) (store : Store) (inner : Env) (n : Nat) :
    (Scopes.mk store (s.envs.push inner)).env n =
      if n = s.envs.size then inner else s.env n := by
  rw [env, Array.getElem?_push]
  split <;> rfl

theorem Keeps.child (keeps : s.Keeps h) (known : n < s.envs.size) :
    (s.perform n .child).1.Keeps (⟨n, .child, .ok (.scope s.envs.size)⟩ :: h) where
  chains m known' := by
    change (Env.chain ((Scopes.mk _ (s.envs.push _)).env m)) = _
    rw [env_push]
    by_cases new : m = s.envs.size
    · subst new
      rw [if_pos rfl, History.chain_cons_self rfl, ← keeps.chains n known, ← keeps.blocks]
      rfl
    · rw [if_neg new, History.chain_cons_other (by simpa [Event.opened?] using Ne.symm new),
        keeps.chains]
      have bound : m < (s.envs.push _).size := known'
      rw [Array.size_push] at bound
      omega
  blocks := by
    simp [perform, Store.openBlock, keeps.blocks]
  scopes := by
    simp [perform, keeps.scopes, History.scopes, Event.opened?, Nat.add_assoc]
  names m := by
    rw [(History.names_cons_other fun _ => rfl).1]
    exact (s.store.block_openBlock (s.env n) m).symm ▸ keeps.names m
  bindings m := by
    rw [(History.names_cons_other fun _ => rfl).2]
    exact (s.store.block_openBlock (s.env n) m).symm ▸ keeps.bindings m
  functions m := by
    rw [History.functions_cons_other fun _ => rfl]
    exact (s.store.block_openBlock (s.env n) m).symm ▸ keeps.functions m
  once m := by
    rw [History.functions_cons_other fun _ => rfl]
    exact keeps.once m
  cells := keeps.cells
  callables := keeps.callables

/-! ### Definitions -/

variable {d : Definition} {f : Header}

/-- A definition fails where the history has its name in that scope, unless it redefines it. -/
theorem Keeps.perform_define (keeps : s.Keeps h) (known : n < s.envs.size) (d : Definition) :
    s.perform n (.define d) =
      if ((h.names n).lookup d.name.key).isSome && !d.redefine then
        (s, .error (.duplicateVariable .run d.name.written))
      else ({ s with store := s.store.add (s.env n) d.name.key d.cell d.binding },
        .ok (.cell h.cells.length)) := by
  have taken : s.store.taken (s.env n) d.name.key =
      ((h.names n).lookup d.name.key).isSome := by
    rw [Store.taken, Table.has, keeps.block_env known, (keeps.names n).lookup]
  have next : s.store.vars.size = h.cells.length := by
    rw [← keeps.cells, Array.length_toList]
  rw [perform, Store.define, taken, next]
  cases ((h.names n).lookup d.name.key).isSome && !d.redefine <;> rfl

theorem Keeps.define (keeps : s.Keeps h) (known : n < s.envs.size) (d : Definition) :
    (s.perform n (.define d)).1.Keeps (⟨n, .define d, (s.perform n (.define d)).2⟩ :: h) := by
  rw [keeps.perform_define known]
  split
  · exact keeps.quiet rfl rfl rfl
  · have next : s.store.vars.size = h.cells.length := by
      rw [← keeps.cells, Array.length_toList]
    have block := keeps.block_env known
    have room : (s.env n).block < s.store.blocks.size := by
      rw [block, keeps.blocks]
      exact known
    refine ⟨keeps.chains, ?_, keeps.scopes, fun m => ?_, fun m => ?_, fun m => ?_, fun m => ?_, ?_,
      keeps.callables⟩
    · simp [Store.add, keeps.blocks]
    · rw [Store.block_add room, block]
      split
      · rename_i same
        subst same
        rw [History.names_cons_self rfl, next]
        exact (keeps.names m).put _ _
      · rename_i other
        rw [(History.names_cons_other fun same => absurd same.symm other).1]
        exact keeps.names m
    · rw [Store.block_add room, block]
      split
      · rename_i same
        subst same
        rw [History.bindings_cons_self rfl, next]
        cases d.binding with
        | none => exact keeps.bindings m
        | some id => exact (keeps.bindings m).put _ _
      · rename_i other
        rw [(History.names_cons_other fun same => absurd same.symm other).2]
        exact keeps.bindings m
    · rw [Store.block_add room, History.functions_cons_other fun _ => rfl]
      split <;> exact keeps.functions m
    · rw [History.functions_cons_other fun _ => rfl]
      exact keeps.once m
    · change (s.store.vars.push d.cell).toList = _
      rw [Array.toList_push, keeps.cells]
      exact List.reverse_cons.symm

/-- A function whose name and arity a scope has is not defined again. -/
theorem Keeps.defineFunction_taken (keeps : s.Keeps h) (known : n < s.envs.size) {m : Nat}
    (taken : (h.functions n).lookup (f.name.key, f.arity) = some m) :
    s.perform n (.defineFunction f) =
      (s, .error (.duplicateFunction .run f.name.written f.arity)) := by
  have found : (s.store.block (s.env n).block).functions.has (f.name.key, f.callable.arity) =
      true := by
    rw [Table.has, keeps.block_env known, (keeps.functions n).lookup]
    exact congrArg Option.isSome taken
  rw [perform, Store.defineFunction, if_pos found]

theorem Keeps.defineFunction_free (keeps : s.Keeps h) (known : n < s.envs.size)
    (fresh : (h.functions n).lookup (f.name.key, f.arity) = none) :
    (s.perform n (.defineFunction f)).2 = .ok (.function h.callables.length) ∧
      (s.perform n (.defineFunction f)).1.Keeps
        (⟨n, .defineFunction f, .ok (.function h.callables.length)⟩ :: h) := by
  have block := keeps.block_env known
  have room : (s.env n).block < s.store.blocks.size := by
    rw [block, keeps.blocks]
    exact known
  have free : (s.store.block (s.env n).block).functions.lookup (f.name.key, f.callable.arity) =
      none := by
    rw [block, (keeps.functions n).lookup]
    exact fresh
  obtain ⟨store, defined, vars, functions, size, blocks⟩ := Store.defineFunction_eq room free
  have next : s.store.functions.size = h.callables.length := by
    rw [← keeps.callables, Array.length_toList]
  rw [block] at blocks
  rw [perform, defined]
  refine ⟨congrArg (fun m => Except.ok (Answer.function m)) next, keeps.chains,
    size.trans keeps.blocks, keeps.scopes, fun m => ?_, fun m => ?_, fun m => ?_, fun m => ?_, ?_,
    ?_⟩
  · rw [blocks, (History.names_cons_other fun _ => rfl).1]
    split <;> exact keeps.names m
  · rw [blocks, (History.names_cons_other fun _ => rfl).2]
    split <;> exact keeps.bindings m
  · rw [blocks]
    split
    · rename_i same
      subst same
      rw [History.functions_cons_self rfl, ← next]
      exact (keeps.functions m).put _ _
    · rename_i other
      rw [History.functions_cons_other fun same => absurd same.symm other]
      exact keeps.functions m
  · by_cases same : n = m
    · subst same
      rw [History.functions_cons_self rfl, List.map_cons, List.nodup_cons]
      refine ⟨fun mem => ?_, keeps.once n⟩
      obtain ⟨p, mem, same⟩ := List.mem_map.1 mem
      exact bne_iff_ne.1 (List.lookup_eq_none_iff.1 fresh p mem) same.symm
    · rw [History.functions_cons_other fun other => absurd other same]
      exact keeps.once m
  · exact vars ▸ keeps.cells
  · change store.functions.toList = _
    rw [functions, Array.toList_push, keeps.callables]
    exact List.reverse_cons.symm

/-! ### Every sequence of requests -/

theorem opened_answered {r : Request} {found : Option Nat} {failure : Cause} :
    Event.opened? ⟨n, r, answered found .cell failure⟩ = none ∧
      Event.opened? ⟨n, r, answered found .function failure⟩ = none := by
  cases found <;> exact ⟨rfl, rfl⟩

/-- Scopes go on holding what the history tells. -/
theorem Keeps.perform (keeps : s.Keeps h) (known : n < s.envs.size) (r : Request) :
    (s.perform n r).1.Keeps (⟨n, r, (s.perform n r).2⟩ :: h) := by
  cases r with
  | child => exact keeps.child known
  | define d => exact keeps.define known d
  | defineFunction f =>
    cases taken : (h.functions n).lookup (f.name.key, f.arity) with
    | none =>
      obtain ⟨answer, after⟩ := keeps.defineFunction_free known taken
      rw [answer]
      exact after
    | some m =>
      rw [keeps.defineFunction_taken known taken]
      exact keeps.quiet rfl rfl rfl
  | lookup name => exact keeps.quiet opened_answered.1 rfl rfl
  | resolve binding name => exact keeps.quiet opened_answered.1 rfl rfl
  | lookupFunction name arity => exact keeps.quiet opened_answered.2 rfl rfl

theorem Grown.keeps (grown : s.Grown h) : s.Keeps h := by
  induction grown with
  | start => exact keeps_start
  | step _ known r ih => exact ih.perform known r

theorem Keeps.find (keeps : s.Keeps h) (known : n < s.envs.size) (name : Name) :
    s.store.findVariable (s.env n) name.key = h.nearest n h.names name.key := by
  simp only [Store.findVariable, keeps.chains n known, History.nearest, (keeps.names _).lookup]

/-- What a scope answers is what the history tells it to. -/
theorem Keeps.answer (keeps : s.Keeps h) (known : n < s.envs.size) (r : Request) :
    (s.perform n r).2 = h.answer n r := by
  cases r with
  | child => exact congrArg (fun m => Except.ok (Answer.scope m)) keeps.scopes
  | define d =>
    rw [keeps.perform_define known, History.answer]
    split <;> rfl
  | defineFunction f =>
    cases taken : (h.functions n).lookup (f.name.key, f.arity) with
    | none =>
      rw [(keeps.defineFunction_free known taken).1, History.answer, taken]
      rfl
    | some m =>
      rw [keeps.defineFunction_taken known taken, History.answer, taken]
      rfl
  | lookup name => rw [Scopes.perform, keeps.find known, History.answer]
  | resolve binding name =>
    cases binding with
    | none =>
      rw [Scopes.perform, Store.resolve, name.isName, Option.map_some, keeps.find known]
      rfl
    | some id =>
      simp only [Scopes.perform, Store.resolve, Store.findBinding, keeps.chains n known,
        (keeps.bindings _).lookup]
      rfl
  | lookupFunction name arity =>
    simp only [Scopes.perform, Store.findFunction, keeps.chains n known,
      (keeps.functions _).lookup]
    rfl

/-- What fails leaves all scopes as they were. -/
theorem Keeps.failed (keeps : s.Keeps h) (known : n < s.envs.size) {r : Request} {c : Cause}
    (failed : (s.perform n r).2 = .error c) : (s.perform n r).1 = s := by
  cases r with
  | child => cases failed
  | define d =>
    rw [keeps.perform_define known] at failed ⊢
    split at failed
    · rename_i taken
      rw [if_pos taken]
    · cases failed
  | defineFunction f =>
    cases taken : (h.functions n).lookup (f.name.key, f.arity) with
    | none => cases (keeps.defineFunction_free known taken).1.symm.trans failed
    | some m => rw [keeps.defineFunction_taken known taken]
  | lookup name | resolve binding name | lookupFunction name arity => rfl

/-! ### Requests of other scopes -/

/-- The number of a new scope is the next one. -/
theorem opened_perform {r : Request} {m : Nat}
    (opened : Event.opened? ⟨n, r, (s.perform n r).2⟩ = some m) : m = s.envs.size := by
  cases r with
  | child =>
    cases opened
    rfl
  | define d =>
    rw [perform] at opened
    split at opened <;> cases opened
  | defineFunction f =>
    rw [perform] at opened
    split at opened <;> cases opened
  | lookup name => cases opened_answered.1.symm.trans opened
  | resolve binding name => cases opened_answered.1.symm.trans opened
  | lookupFunction name arity => cases opened_answered.2.symm.trans opened

/-- Scopes opened later have later numbers. -/
theorem Grown.opened_later {later : History} (grown : s.Grown (later ++ h)) :
    ∀ e ∈ later, ∀ m, e.opened? = some m → h.scopes ≤ m := by
  induction later generalizing s with
  | nil => simp
  | cons e later ih =>
    intro e' mem m opened
    cases grown with
    | step grown known r =>
      rcases List.mem_cons.1 mem with rfl | mem
      · rw [opened_perform opened, grown.keeps.scopes]
        exact History.scopes_le h later
      · exact ih grown e' mem m opened

end Scopes

namespace Scoping.History

variable {h later : History} {n : Nat}

theorem chain_append (other : ∀ e ∈ later, e.opened? ≠ some n) :
    chain (later ++ h) n = h.chain n := by
  induction later with
  | nil => rfl
  | cons e later ih =>
    rw [List.cons_append, chain_cons_other (other e List.mem_cons_self)]
    exact ih fun e mem => other e (List.mem_cons_of_mem _ mem)

theorem ofScope_append (other : ∀ e ∈ later, e.scope ≠ n) :
    ofScope (later ++ h) n = h.ofScope n := by
  rw [ofScope, List.filter_append, List.filter_eq_nil_iff.2 (by simpa using other)]
  rfl

theorem names_congr {h' : History} (same : h'.ofScope n = h.ofScope n) :
    h'.names n = h.names n := by
  rw [names, names, same]

theorem bindings_congr {h' : History} (same : h'.ofScope n = h.ofScope n) :
    h'.bindings n = h.bindings n := by
  rw [bindings, bindings, same]

theorem functions_congr {h' : History} (same : h'.ofScope n = h.ofScope n) :
    h'.functions n = h.functions n := by
  rw [functions, functions, same]

/-- What is found from a scope depends on its chain alone. -/
theorem nearest_congr {κ : Type} [BEq κ] {h' : History} {entries entries' : Nat → List (κ × Nat)}
    (chain : h'.chain n = h.chain n) (same : ∀ b ∈ h.chain n, entries' b = entries b) (key : κ) :
    h'.nearest n entries' key = h.nearest n entries key := by
  rw [nearest, nearest, chain]
  generalize h.chain n = bs at same
  induction bs with
  | nil => rfl
  | cons b bs ih =>
    rw [List.findSome?_cons, List.findSome?_cons, same b List.mem_cons_self,
      ih fun b mem => same b (List.mem_cons_of_mem _ mem)]

end Scoping.History

open Scopes

/-- A request that looks for something. -/
def Scoping.Request.isLookup : Request → Bool
  | .lookup _ | .resolve .. | .lookupFunction .. => true
  | _ => false

/-- What other scopes are asked does not matter to what is found from a scope. -/
theorem Scopes.Grown.undisturbed {s s' : Scopes} {h later : History} {n : Nat}
    (grown : s.Grown h) (grown' : s'.Grown (later ++ h)) (known : n < s.envs.size)
    (other : ∀ e ∈ later, e.scope ∉ h.chain n) {r : Request} (looks : r.isLookup) :
    (s'.perform n r).2 = (s.perform n r).2 := by
  have old : ∀ e ∈ later, e.opened? ≠ some n := by
    intro e mem opened
    have later := grown'.opened_later e mem n opened
    rw [← grown.keeps.scopes] at later
    omega
  have chain := History.chain_append (h := h) old
  have same : ∀ b ∈ h.chain n, History.ofScope (later ++ h) b = h.ofScope b := fun b on =>
    History.ofScope_append fun e mem same => other e mem (same ▸ on)
  have known' : n < s'.envs.size := by
    rw [grown'.keeps.scopes]
    exact Nat.lt_of_lt_of_le (grown.keeps.scopes ▸ known) (History.scopes_le h later)
  have names := History.nearest_congr chain fun b on => History.names_congr (same b on)
  have bindings := History.nearest_congr chain fun b on => History.bindings_congr (same b on)
  have functions := History.nearest_congr chain fun b on => History.functions_congr (same b on)
  rw [grown.keeps.answer known, grown'.keeps.answer known']
  cases r with
  | lookup name => exact congrArg (answered · .cell _) (names name.key)
  | resolve binding name =>
    cases binding with
    | none => exact congrArg (answered · .cell _) (names name.key)
    | some id => exact congrArg (answered · .cell _) (bindings id)
  | lookupFunction name arity =>
    exact congrArg (answered · .function _) (functions (name.key, arity))
  | _ => cases looks

/-- Scopes answer as the history of what they were asked says: a lookup with the last definition in
the nearest scope that has one, by name, by declaration or by name and arity, and a definition with
a new number where it is free to do so in its own scope. What fails changes no scope, and what
scopes off its chain are asked does not matter to what a scope finds. Variables and functions stay
as defined, and each scope lists its names in order of first definition, none of them twice. -/
theorem scopes_answer_history {s : Scopes} {h : History} (grown : s.Grown h) :
    (∀ n < s.envs.size, ∀ r, (s.perform n r).2 = h.answer n r) ∧
    (∀ n < s.envs.size, ∀ r c, (s.perform n r).2 = .error c → (s.perform n r).1 = s) ∧
    (∀ (later : History) (s' : Scopes) (n : Nat), s'.Grown (later ++ h) → n < s.envs.size →
      (∀ e ∈ later, e.scope ∉ h.chain n) →
      ∀ r : Request, r.isLookup → (s'.perform n r).2 = (s.perform n r).2) ∧
    s.store.vars.toList = h.cells ∧ s.store.functions.toList = h.callables ∧
    (∀ n, (s.store.block n).vars.keys = ((h.names n).map (·.1)).reverse.eraseDups ∧
      (s.store.block n).vars.keys.Nodup ∧
      (s.store.block n).functions.keys = ((h.functions n).map (·.1)).reverse ∧
      (s.store.block n).functions.keys.Nodup) := by
  have keeps := grown.keeps
  refine ⟨fun n known r => keeps.answer known r,
    fun n known r c failed => keeps.failed known failed,
    fun later s' n grown' known other r looks => grown.undisturbed grown' known other looks,
    keeps.cells, keeps.callables, fun n => ⟨(keeps.names n).keys, (keeps.names n).nodup,
      ?_, (keeps.functions n).nodup⟩⟩
  rw [(keeps.functions n).keys, eraseDups_of_nodup]
  exact List.pairwise_reverse.2 ((keeps.once n).imp Ne.symm)

/-- `x` -/
def Scoping.Name.x : Name :=
  ⟨.string "x", .text "x", rfl⟩

/-- `x` for a declaration. -/
def Scoping.Definition.ofX (declaration : Label) (redefine : Bool) : Definition :=
  ⟨.x, none, true, .integer declaration, some ⟨0, declaration⟩, redefine⟩

/-- Where a name was redefined for another declaration, the first one still finds its own variable;
neither a definition that fails nor one in a scope inside changes that. -/
theorem redefined_x_answers : ∃ (s : Scopes) (h : History), s.Grown h ∧
    (s.perform 1 (.resolve (some ⟨0, 0⟩) .x)).2 = .ok (.cell 0) ∧
    (s.perform 1 (.lookup .x)).2 = .ok (.cell 1) ∧
    (s.perform 0 (.define (.ofX 2 false))).1 = s ∧
    ((s.perform 1 (.define (.ofX 2 false))).1.perform 0 (.lookup .x)).2 = .ok (.cell 1) := by
  have defined := Grown.start.step (n := 0) (by decide) (.define (.ofX 0 false))
  have redefined := defined.step (n := 0) (by decide) (.define (.ofX 1 true))
  have opened := redefined.step (n := 0) (by decide) .child
  have inside := opened.step (n := 1) (by decide) (.define (.ofX 2 false))
  obtain ⟨answers, fails, undisturbed, -⟩ := scopes_answer_history opened
  refine ⟨_, _, opened, answers 1 (by decide) _, answers 1 (by decide) _,
    fails 0 (by decide) _ (.duplicateVariable .run (.string "x")) (answers 0 (by decide) _),
    (undisturbed [_] _ 0 inside (by decide) ?_ _ rfl).trans (answers 0 (by decide) _)⟩
  intro e mem
  rw [List.mem_singleton.1 mem]
  decide

end PlcLang
