import PlcLang.Proofs.Descent.Moves
import PlcLang.Proofs.Except
import PlcLang.Proofs.Running.Storage

/-! What a step does to the store. -/

namespace PlcLang

/-- The world that a step leads to. -/
def Step.world : Step → World
  | .next m => m.world
  | .halt w _ => w

/-- The store that a step leads to has a property. -/
def Step.Ends (P : Store → Prop) (step : Step) : Prop :=
  P step.world.store

/-- Arguments become variables by additions to one block. -/
theorem World.bind_keeps {P : Store → Prop} {env : Env}
    (add : ∀ (s : Store) (key : Key) (x : Variable) (id : Option DeclId),
      P s → x.isMutable = true → P (s.add env key x id))
    {w : World} (h : P w.store) (found : Annotations) (arguments : List (Declared Label × Value)) :
    P (w.bind env found arguments).1.store := by
  induction arguments generalizing w with
  | nil => exact h
  | cons argument rest ih =>
    obtain ⟨p, v⟩ := argument
    rw [bind]
    split
    · exact h
    · split
      · exact h
      · exact ih (add _ _ _ _ h rfl)

/-- What a step can do to the store, and at what points of a run. -/
inductive Machine.Changes (program : Annotated) (m : Machine) : Store → Prop where
  | nothing : Changes program m m.world.store
  | opens (env : Env) : Changes program m (m.world.store.openBlock env).1
  /-- An empty list is made. -/
  | emptyList {label : Label} {env : Env}
      (here : m.control = .evaluate (.listLiteral label (.list [])) env) :
      Changes program m (m.world.store.newList #[]).1
  /-- The last element of a list has a value. -/
  | list {v : Value} {done : List Value} {env : Env} {K : List Frame} (here : m.control = .value v)
      (waits : m.frames = .element done [] env :: K) :
      Changes program m (m.world.store.newList (v :: done).reverse.toArray).1
  | declares {v : Value} {label : Label} {name : Json} {key : Key} {env : Env} {K : List Frame}
      (here : m.control = .value v) (waits : m.frames = .declaration label name env :: K)
      (isName : name.key = .ok key) :
      Changes program m (m.world.store.add env key
        ⟨name, (program.found.of label).binding.map (·.type), true, v⟩
        ((program.found.of label).binding.map (·.id)))
  /-- The name of a global is free in its block. -/
  | global {v : Value} {label : Label} {name typeName : Json} {isMutable : Bool}
      {value functions : Node Label} {rest : List (Node Label)} {key : Key} {env : Env}
      {K : List Frame} (here : m.control = .value v)
      (waits : m.frames =
        .global (.global label name isMutable typeName value) rest functions env :: K)
      (isName : name.key = .ok key) (free : m.world.store.taken env key = false) :
      Changes program m (m.world.store.add env key
        ⟨name, (program.found.of label).binding.map (·.type), isMutable, v⟩
        ((program.found.of label).binding.map (·.id)))
  /-- A variable that is assigned to can change. -/
  | assigns {v : Value} {n : Nat} {x : Variable} {offset receiver node : Node Label} {env : Env}
      {K : List Frame} (here : m.control = .value v)
      (waits : m.frames = .assignment n offset receiver node env :: K)
      (known : m.world.store.vars[n]? = some x) (changes : x.isMutable = true)
      (whole : offset.isAbsent = true) : Changes program m (m.world.store.setValue n v)
  /-- An element that is assigned to is there. -/
  | stores {i : Nat} {list : Nat} {items : Array Value} {v : Value} {receiver : Node Label}
      {K : List Frame} (here : m.control = .value (.integer i))
      (waits : m.frames = .target list v receiver :: K)
      (known : m.world.store.lists[list]? = some items) (inside : i < items.size) :
      Changes program m (m.world.store.setElement list i v)
  /-- A function is called: arguments become variables of a new block, all or the first of them. -/
  | calls {k : Nat} {arguments : List Value} {f : Callable} {parameters : List (Declared Label)}
      {statements : Node Label} {home : Env} {w : World} (here : m.control = .call k arguments)
      (known : m.world.store.functions[k]? = some f)
      (body : f.body = .code parameters statements home)
      (same : w.store = m.world.store) :
      Changes program m (((w.openBlock home).1.bind (w.openBlock home).2 program.found
        (parameters.zip arguments)).1.store)
  | defines {f : Node Label} {rest : List (Node Label)} {env : Env} {s : Store}
      (here : m.control = .functions (f :: rest) env) (takes : m.world.store.Takes env f s) :
      Changes program m s

section

variable {P : Store → Prop} {s : Situation}

theorem ends_require {α : Type} {x : Except Fault α} {k : α → Step} (h : P s.world.store)
    (hk : ∀ a, x = .ok a → (k a).Ends P) : (s.require x k).Ends P := by
  cases x with
  | error f => exact h
  | ok a => exact hk a rfl

theorem ends_noting {level : Nat} {n : World → Except Fault Note} {k : Situation → Step}
    (h : P s.world.store)
    (hk : ∀ w, w.store = s.world.store → P w.store → (k (s.withWorld w)).Ends P) :
    (s.noting level n k).Ends P := by
  unfold Situation.noting
  split
  · exact hk s.world rfl h
  · exact ends_require h fun note _ => hk (s.world.note note) rfl h

theorem ends_notingText {level : Nat} {v : Value} {n : String → Note} {k : Situation → Step}
    (h : P s.world.store)
    (hk : ∀ w, w.store = s.world.store → P w.store → (k (s.withWorld w)).Ends P) :
    (s.notingText level v n k).Ends P :=
  ends_noting h hk

theorem ends_requireBoolean {v : Value} {e : Node Label} {k : Bool → Step}
    (h : P s.world.store) (hk : ∀ b, (k b).Ends P) : (s.requireBoolean v e k).Ends P := by
  cases v with
  | boolean b => exact hk b
  | _ => exact h

theorem ends_requireList {v : Value} {e : Node Label} {k : Nat → Step}
    (h : P s.world.store) (hk : ∀ n, (k n).Ends P) : (s.requireList v e k).Ends P := by
  cases v with
  | list address => exact hk address
  | _ => exact h

/-- An index is accepted if it is that of an element, and refused otherwise. -/
theorem Situation.requireIndex_cases (s : Situation) (list : Nat) (v : Value) (e : Node Label) :
    (∃ f, (∀ k, s.requireIndex list v e k = s.fail f) ∧
      ∀ (i : Nat) (items : Array Value), v = .integer i →
        s.world.store.lists[list]? = some items → items.size ≤ i) ∨
    ∃ (i : Nat) (items : Array Value), v = .integer i ∧
      s.world.store.lists[list]? = some items ∧ i < items.size ∧
      ∀ k, s.requireIndex list v e k = k i := by
  cases v with
  | integer n =>
    by_cases refused : n < 0 ∨ (s.world.store.lists[list]?.getD #[]).size ≤ n
    · refine .inl ⟨_, fun k => if_pos refused, fun i items same known => ?_⟩
      cases same
      rw [known, Option.getD_some] at refused
      omega
    · have accepts (k : Nat → Step) :
          s.requireIndex list (.integer n) e k = k n.toNat := if_neg refused
      cases known : s.world.store.lists[list]? with
      | none =>
        rw [known, Option.getD_none, Array.size_empty] at refused
        omega
      | some items =>
        rw [known, Option.getD_some] at refused
        refine .inr ⟨n.toNat, items, ?_, rfl, by omega, accepts⟩
        rw [Int.toNat_of_nonneg (by omega)]
  | _ => exact .inl ⟨_, fun _ => rfl, fun _ _ same => by cases same⟩

theorem ends_requireIndex {list : Nat} {v : Value} {e : Node Label} {k : Nat → Step}
    (h : P s.world.store)
    (hk : ∀ (i : Nat) (items : Array Value), v = .integer i →
      s.world.store.lists[list]? = some items → i < items.size → (k i).Ends P) :
    (s.requireIndex list v e k).Ends P := by
  rcases s.requireIndex_cases list v e with ⟨f, fails, -⟩ | ⟨i, items, given, known, inside, goes⟩
  · rw [fails]
    exact h
  · rw [goes]
    exact hk i items given known inside

theorem ends_resolve {env : Env} {binding : Option Binding} {name : Json} {node : Node Label}
    {k : Nat → Variable → Step} (h : P s.world.store) (hk : ∀ n v, (k n v).Ends P) :
    (s.resolve env binding name node k).Ends P := by
  unfold Situation.resolve
  split
  · exact h
  · exact h
  · split
    · exact hk _ _
    · exact h

theorem ends_execute {statements : Node Label} {env : Env} (h : P s.world.store) :
    (s.execute statements env).Ends P :=
  ends_require h fun _ _ => h

theorem ends_enter {statements : Node Label} {env : Env}
    (opened : P (s.world.store.openBlock env).1) : (s.enter statements env).Ends P :=
  ends_execute (s := s.withWorld (s.world.openBlock env).1) opened

theorem ends_invoke {env : Env} {name : Json} {arguments : List Value} {node : Node Label}
    (h : P s.world.store) : (s.invoke env name arguments node).Ends P := by
  refine ends_require h fun key _ => ?_
  split <;> exact h

theorem ends_take {subject : Value} {reason : String} {branch : Node Label} {env : Env}
    (h : P s.world.store) (opened : P (s.world.store.openBlock env).1) :
    (s.take subject reason branch env).Ends P := by
  refine ends_notingText h fun w same h => ?_
  rw [← same] at opened
  cases branch with
  | case value statements => exact ends_enter opened
  | _ => exact h

theorem ends_select {subject : Value} {default : Option (Node Label)} {env : Env}
    {cases : List (Node Label)} (h : P s.world.store)
    (opened : P (s.world.store.openBlock env).1) :
    (s.select subject default env cases).Ends P := by
  induction cases generalizing default with
  | nil =>
    cases default with
    | none => exact h
    | some branch => exact ends_take h opened
  | cons branch rest ih =>
    simp only [Situation.select]
    split
    · exact h
    · exact ih
    · exact h
    · exact h

end

section

variable {settings : Settings} {program : Annotated} {m : Machine} {K : List Frame}

/-- The situation of a machine. -/
def Machine.situation (settings : Settings) (program : Annotated) (m : Machine) : Situation :=
  ⟨settings, program, m.frames, m.calls, m.world⟩

theorem changes_evaluate {e : Node Label} {env : Env} (here : m.control = .evaluate e env) :
    ((m.situation settings program).evaluate e env).Ends (m.Changes program) := by
  cases e with
  | binary _ op => cases op <;> exact .nothing
  | access =>
    refine ends_resolve .nothing fun n x => ?_
    split
    · exact .nothing
    · exact ends_requireList .nothing fun _ => .nothing
  | call label name arguments =>
    cases arguments with
    | list items =>
      cases items with
      | nil => exact ends_invoke .nothing
      | cons => exact .nothing
    | _ => exact .nothing
  | listLiteral label elements =>
    cases elements with
    | list items =>
      cases items with
      | nil => exact .emptyList here
      | cons => exact .nothing
    | _ => exact .nothing
  | _ => exact .nothing

theorem changes_execute {statements : List (Node Label)} {env : Env} :
    ((m.situation settings program).executeAll statements env).Ends (m.Changes program) := by
  cases statements with
  | nil => exact .nothing
  | cons first rest =>
    cases first with
    | assignment receiver value =>
      cases receiver with
      | access => exact ends_resolve .nothing fun _ _ => .nothing
      | _ => exact .nothing
    | loop =>
      obtain ⟨debug, depth, loops⟩ := settings
      cases loops with
      | shared => exact .opens env
      | perRound => exact .nothing
    | _ => exact .nothing

theorem changes_call {k : Nat} {arguments : List Value} (here : m.control = .call k arguments) :
    ((m.situation settings program).call k arguments).Ends (m.Changes program) := by
  unfold Situation.call
  split
  · exact .nothing
  · rename_i f known
    refine ends_noting .nothing fun w same still => ?_
    split
    · exact ends_require (s := (m.situation settings program).withWorld w) still
        fun text _ => still
    · rename_i parameters statements home body
      change Step.Ends _ (if settings.depth ≤ m.calls then _ else _)
      split
      · exact still
      · have bound : m.Changes program _ := .calls here known body same
        dsimp only [Situation.withWorld, Machine.situation]
        generalize (w.openBlock home).1.bind (w.openBlock home).2 program.found
          (parameters.zip arguments) = called at bound ⊢
        obtain ⟨w, _ | f⟩ := called
        · exact ends_execute bound
        · exact bound

theorem changes_global {g functions : Node Label} {rest : List (Node Label)} {env : Env} :
    ((m.situation settings program).global g rest functions env).Ends (m.Changes program) := by
  unfold Situation.global
  split <;> exact .nothing

theorem changes_defineFunction {f : Node Label} {rest : List (Node Label)} {env : Env}
    (here : m.control = .functions (f :: rest) env) :
    ((m.situation settings program).defineFunction f rest env).Ends (m.Changes program) := by
  cases f with
  | function label name parameters returnTypeName statements =>
    refine ends_require .nothing fun (header, returns, key) headed => ?_
    simp only [Except.bind_eq_ok] at headed
    obtain ⟨parameters, listed, _, headed, _, -, _, isName, same⟩ := headed
    cases same
    obtain rfl := items_ok.1 listed
    dsimp only
    split
    · exact .nothing
    · rename_i store n defined
      have taken : m.Changes program store := .defines here
        ⟨_, _, _, _, _, _, returns, _, n, rfl, headed, key_ok.1 isName, defined⟩
      exact ends_noting (s := Situation.withWorld _ _) taken fun _ _ taken => taken
  | _ => exact .nothing

theorem changes_resume {v : Value} {frame : Frame} (here : m.control = .value v)
    (waits : m.frames = frame :: K) :
    (({ m.situation settings program with frames := K }).resume v frame).Ends
      (m.Changes program) := by
  cases frame with
  | global g rest functions env =>
    cases g with
    | global label name isMutable typeName value =>
      refine ends_require .nothing fun w added => ?_
      obtain ⟨key, isName, -⟩ := Except.bind_eq_ok.1 added
      rw [World.addFree_eq isName] at added
      split at added
      · cases added
      · rename_i free
        cases added
        have made : m.Changes program _ :=
          .global here waits isName (Bool.eq_false_iff.2 free)
        exact ends_notingText (s := Situation.withWorld _ _) made fun _ _ made => made
    | _ => exact .nothing
  | right => exact ends_require .nothing fun _ _ => .nothing
  | test =>
    refine ends_requireBoolean .nothing fun b => ?_
    split <;> exact .nothing
  | boolean => exact ends_requireBoolean .nothing fun _ => .nothing
  | index =>
    simp only [Situation.resume]
    exact ends_requireIndex .nothing fun _ _ _ _ _ => .nothing
  | argument name done rest node env =>
    cases rest with
    | nil => exact ends_invoke .nothing
    | cons => exact .nothing
  | element done rest env =>
    cases rest with
    | nil => exact .list here waits
    | cons => exact .nothing
  | declaration label name env =>
    refine ends_require .nothing fun key isName => ?_
    have made : m.Changes program _ := .declares here waits isName
    exact ends_notingText (s := Situation.withWorld _ _) made fun _ _ made => made
  | assignment n offset receiver node env =>
    simp only [Situation.resume]
    split
    · exact .nothing
    · rename_i x known
      split
      · exact .nothing
      · rename_i changes
        split
        · rename_i whole
          refine .assigns here waits known ?_ whole
          simpa using changes
        · exact ends_requireList .nothing fun _ => .nothing
  | target list value receiver =>
    simp only [Situation.resume]
    refine ends_requireIndex .nothing fun i items given known inside => ?_
    exact .stores (here.trans (congrArg Control.value given)) waits known inside
  | branch condition first second env =>
    refine ends_requireBoolean .nothing fun b => ends_notingText .nothing fun w same _ => ?_
    have opened : m.Changes program (w.store.openBlock env).1 := by
      rw [same]
      exact .opens env
    exact ends_enter opened
  | subject cases env =>
    exact ends_require .nothing fun items _ => ends_select .nothing (.opens env)
  | case subject default branch rest env =>
    refine ends_require .nothing fun same _ => ?_
    split
    · exact ends_take .nothing (.opens env)
    · exact ends_select .nothing (.opens env)
  | condition condition statements env =>
    refine ends_requireBoolean .nothing fun b =>
      ends_notingText .nothing fun w same still => ?_
    have opened : m.Changes program (w.store.openBlock env).1 := by
      rw [same]
      exact .opens env
    obtain ⟨debug, depth, loops⟩ := settings
    cases b with
    | false => exact still
    | true =>
      cases loops with
      | shared => exact ends_execute still
      | perRound => exact ends_execute opened
  | _ => exact .nothing

/-- What a step does to the store is one of these. -/
theorem Machine.changes (settings : Settings) (program : Annotated) (m : Machine) :
    m.Changes program (m.step settings program).world.store := by
  obtain ⟨control, K, calls, w⟩ := m
  cases control with
  | start env =>
    have step : ((Machine.situation settings program ⟨.start env, K, calls, w⟩).start env).Ends
        (Machine.Changes program ⟨.start env, K, calls, w⟩) := by
      unfold Situation.start
      split
      · exact ends_require .nothing fun _ _ => .nothing
      · exact .nothing
    exact step
  | globals rest functions env =>
    cases rest with
    | nil =>
      exact ends_require (s := Machine.situation settings program _) .nothing fun _ _ => .nothing
    | cons g rest => exact changes_global
  | functions rest env =>
    cases rest with
    | nil => exact .nothing
    | cons f rest => exact changes_defineFunction rfl
  | main env =>
    simp only [Machine.step]
    split <;> exact .nothing
  | evaluate e env => exact changes_evaluate rfl
  | execute statements env => exact changes_execute
  | call k arguments => exact changes_call rfl
  | value v =>
    cases K with
    | nil => exact .nothing
    | cons frame K => exact changes_resume rfl rfl
  | ended =>
    cases K with
    | nil => exact .nothing
    | cons frame K => cases frame <;> exact .nothing
  | leave v =>
    cases K with
    | nil => exact .nothing
    | cons frame K => cases frame <;> exact .nothing

end

end PlcLang
