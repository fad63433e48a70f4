import PlcLang.Machine.Step
import PlcLang.Proofs.Running.Storage
import PlcLang.Proofs.Tree.Parts

namespace PlcLang

/-- The functions of a run while no more are defined: all of them, and the names for them in each
block. There are at least `blocks` blocks, and the call with a label, of a name with so many
arguments, may be one of the functions that `may` tells. -/
structure Ground where
  all : Array Callable
  names : Nat → Table (Key × Nat) Nat
  blocks : Nat
  may : Label → Key → Nat → Nat → Prop

/-- The function of a name in the nearest block that has one. -/
def Ground.find (D : Ground) (env : Env) (key : Key) (arity : Nat) : Option Nat :=
  env.chain.findSome? fun b => (D.names b).lookup (key, arity)

/-- A store has these functions. -/
structure Store.On (s : Store) (D : Ground) : Prop where
  functions : s.functions = D.all
  names : ∀ n, (s.block n).functions = D.names n
  room : D.blocks ≤ s.blocks.size

namespace Store.On

variable {s : Store} {D : Ground} {env : Env} {key : Key} {arity : Nat}

theorem findFunction (h : s.On D) : s.findFunction env key arity = D.find env key arity := by
  simp only [Store.findFunction, Ground.find, h.names]

/-- A new block has no functions. -/
theorem find_openBlock (h : s.On D) :
    D.find (s.openBlock env).2 key arity = D.find env key arity := by
  have bare : D.names s.blocks.size = [] := by rw [← h.names, Store.block_new]
  simp only [Ground.find, Store.openBlock, Env.chain, List.findSome?_cons, bare, List.lookup_nil]

theorem openBlock (h : s.On D) (env : Env) : (s.openBlock env).1.On D where
  functions := h.functions
  names n := by rw [Store.block_openBlock, h.names]
  room := Nat.le_trans h.room (Store.grows_openBlock s env).blocks

theorem add (h : s.On D) {x : Variable} {id : Option DeclId} : (s.add env key x id).On D where
  functions := h.functions
  names n := by
    by_cases here : n = env.block ∧ env.block < s.blocks.size
    · rw [Store.block_add here.2, if_pos here.1]
      exact h.names n
    · rw [← h.names n]
      simp only [Store.add, Store.block, Array.getElem?_modify]
      split
      · rename_i same
        rw [Array.getElem?_eq_none (by omega)]
        rfl
      · rfl
  room := Nat.le_trans h.room Store.grows_add.blocks

theorem setValue (h : s.On D) {n : Nat} {v : Value} : (s.setValue n v).On D :=
  ⟨h.functions, h.names, h.room⟩

theorem setLists (h : s.On D) {lists : Lists} : ({ s with lists := lists } : Store).On D :=
  ⟨h.functions, h.names, h.room⟩

end Store.On

theorem World.addFree_on {D : Ground} {w w' : World} {env : Env} {name : Json}
    {binding : Option Binding} {isMutable : Bool} {v : Value} {subject : Option (Node Label)}
    (h : w.store.On D) (added : w.addFree env name binding isMutable v subject = .ok w') :
    w'.store.On D := by
  cases isName : name.key with
  | error f =>
    simp only [World.addFree, isName, Bind.bind, Except.bind] at added
    contradiction
  | ok key =>
    rw [World.addFree_eq isName] at added
    split at added
    · contradiction
    · cases added
      exact h.add

theorem World.bind_on {D : Ground} {w : World} (h : w.store.On D) (env : Env) (found : Annotations)
    (arguments : List (Declared Label × Value)) : (w.bind env found arguments).1.store.On D := by
  induction arguments generalizing w with
  | nil => exact h
  | cons a rest ih =>
    obtain ⟨p, v⟩ := a
    simp only [World.bind]
    split
    · exact h
    · split
      · exact h
      · exact ih h.add

/-- A call has as many arguments as a function has parameters that its name finds in a block, and
may be one of it. -/
def Node.Answers (D : Ground) (env : Env) : Node Label → Prop
  | .call label name arguments => ∃ items key n, arguments = .list items ∧ name.key? = some key ∧
      D.find env key items.length = some n ∧ D.may label key items.length n
  | _ => True

/-- All calls below a node answer when it is run in a block. -/
abbrev Ground.Serves (D : Ground) (env : Env) (n : Node Label) : Prop :=
  n.Every (Node.Answers D env)

abbrev Ground.ServesAll (D : Ground) (env : Env) (ns : List (Node Label)) : Prop :=
  Node.EveryOne (Node.Answers D env) ns

/-- All code answers in its home. -/
def Ground.Coded (D : Ground) : Prop :=
  ∀ (n : Nat) (f : Callable) (parameters : List (Declared Label)) (statements : Node Label)
    (home : Env), D.all[n]? = some f → f.body = .code parameters statements home →
      D.Serves home statements

section

variable {D : Ground} {env env' : Env} {n : Node Label}

theorem Node.Answers.moved (same : ∀ key arity, D.find env' key arity = D.find env key arity)
    (h : n.Answers D env) : n.Answers D env' := by
  cases n with
  | call label name arguments =>
    obtain ⟨items, key, i, given, isName, found, may⟩ := h
    exact ⟨items, key, i, given, isName, (same key items.length).trans found, may⟩
  | _ => exact trivial

theorem Node.Every.enter {s : Store} (h : D.Serves env n) (on : s.On D) :
    D.Serves (s.openBlock env).2 n :=
  Node.Every.imp (fun _ => Node.Answers.moved fun _ _ => on.find_openBlock) n h

end

/-- What comes to a frame: a value, or the end of a statement. -/
inductive Arrival where
  | value
  | ending

/-- A frame waits for the first of these and comes to the second, and what it has still to run
answers. -/
inductive Frame.Fits (D : Ground) : Arrival → Frame → Arrival → Prop where
  | left {op : Operator} {right node : Node Label} {env : Env} (second : D.Serves env right) :
      Fits D .value (.left op right node env) .value
  | right {op : Operator} {left : Value} {node : Node Label} :
      Fits D .value (.right op left node) .value
  | test {decisive : Bool} {left right : Node Label} {env : Env} (second : D.Serves env right) :
      Fits D .value (.test decisive left right env) .value
  | boolean {e : Node Label} : Fits D .value (.boolean e) .value
  | index {list : Nat} {node : Node Label} : Fits D .value (.index list node) .value
  | argument {label : Label} {name : Json} {done : List Value} {rest items : List (Node Label)}
      {env : Env} (call : (Node.call label name (.list items)).Answers D env)
      (count : items.length = done.length + 1 + rest.length) (others : D.ServesAll env rest) :
      Fits D .value (.argument name done rest (.call label name (.list items)) env) .value
  | element {done : List Value} {rest : List (Node Label)} {env : Env}
      (others : D.ServesAll env rest) : Fits D .value (.element done rest env) .value
  | discard : Fits D .value .discard .ending
  | declaration {label : Label} {name : Json} {env : Env} :
      Fits D .value (.declaration label name env) .ending
  | assignment {target : Nat} {offset receiver node : Node Label} {env : Env}
      (index : D.Serves env offset) :
      Fits D .value (.assignment target offset receiver node env) .ending
  | target {list : Nat} {v : Value} {receiver : Node Label} :
      Fits D .value (.target list v receiver) .ending
  | branch {condition thenStatements elseStatements : Node Label} {env : Env}
      (first : D.Serves env thenStatements) (second : D.Serves env elseStatements) :
      Fits D .value (.branch condition thenStatements elseStatements env) .ending
  | subject {cases : Node Label} {env : Env} (each : D.Serves env cases) :
      Fits D .value (.subject cases env) .ending
  | case {subject : Value} {default : Option (Node Label)} {case : Node Label}
      {rest : List (Node Label)} {env : Env} (fallback : ∀ b ∈ default, D.Serves env b)
      (here : D.Serves env case) (others : D.ServesAll env rest) :
      Fits D .value (.case subject default case rest env) .ending
  | condition {condition statements : Node Label} {env : Env} (test : D.Serves env condition)
      (body : D.Serves env statements) :
      Fits D .value (.condition condition statements env) .ending
  | round {condition statements : Node Label} {env : Env} (test : D.Serves env condition)
      (body : D.Serves env statements) :
      Fits D .ending (.round condition statements env) .ending
  | rest {statements : List (Node Label)} {env : Env} (others : D.ServesAll env statements) :
      Fits D .ending (.rest statements env) .ending
  | result : Fits D .value .result .ending
  | activation {n : Nat} : Fits D .ending (.activation n) .value

/-- Frames that wait above others, which wait for a value in the end. A statement ends inside a
call. -/
inductive Stack (D : Ground) (bottom : List Frame) : Arrival → List Frame → Prop where
  | bottom : Stack D bottom .value bottom
  | cons {o o' : Arrival} {f : Frame} {K : List Frame} (fits : f.Fits D o o')
      (below : Stack D bottom o' K) : Stack D bottom o (f :: K)

/-- What is done next comes to one of these, and all it has to run answers. -/
inductive Control.Fits (D : Ground) : Control → Arrival → Prop where
  | evaluate {e : Node Label} {env : Env} (serves : D.Serves env e) :
      Fits D (.evaluate e env) .value
  | execute {statements : List (Node Label)} {env : Env} (serves : D.ServesAll env statements) :
      Fits D (.execute statements env) .ending
  | call {n : Nat} {arguments : List Value} : Fits D (.call n arguments) .value
  | value {v : Value} : Fits D (.value v) .value
  | ended : Fits D .ended .ending
  | leave {v : Value} : Fits D (.leave v) .ending

/-- A machine runs code that answers. -/
inductive Machine.Ready (D : Ground) (bottom : List Frame) : Machine → Prop where
  | intro {o : Arrival} {control : Control} {K : List Frame} {calls : Nat} {w : World}
      (next : control.Fits D o) (frames : Stack D bottom o K) (on : w.store.On D) :
      Ready D bottom ⟨control, K, calls, w⟩

theorem Machine.Ready.on {D : Ground} {bottom : List Frame} {m : Machine} (h : m.Ready D bottom) :
    m.world.store.On D := by
  obtain ⟨_, _, on⟩ := h
  exact on

end PlcLang
