import PlcLang.Proofs.Chaining.Step
import PlcLang.Proofs.Checking.Program

namespace PlcLang

/-- Nothing is left to do but to go on with what waits. -/
def Control.isSettled : Control → Bool
  | .value _ => true
  | .ended => true
  | .leave _ => true
  | _ => false

/-- The function whose call a frame is. -/
def Frame.activation? : Frame → Option Nat
  | .activation n => some n
  | _ => none

/-- What a statement does first, and the frame that waits for it. -/
inductive Node.Starts (env : Env) : Node Label → Control → Frame → Prop where
  | expression {e : Node Label} : Starts env (.expressionStmt e) (.evaluate e env) .discard
  | declaration {label : Label} {name typeName : Json} {value : Node Label} :
      Starts env (.declaration label name typeName value) (.evaluate value env)
        (.declaration label name env)
  | bare {label : Label} {name typeName : Json} {value : Node Label} :
      Starts env (.declaration label name typeName value) (.value .nil)
        (.declaration label name env)
  | assignment {label : Label} {name : Json} {offset value : Node Label} {n : Nat} :
      Starts env (.assignment (.access label name offset) value) (.evaluate value env)
        (.assignment n offset (.access label name offset)
          (.assignment (.access label name offset) value) env)
  | conditional {condition first second : Node Label} :
      Starts env (.conditional condition first second) (.evaluate condition env)
        (.branch condition first second env)
  | switch {condition cases : Node Label} :
      Starts env (.switch condition cases) (.evaluate condition env) (.subject cases env)
  | loop {condition statements : Node Label} {inside : Env} :
      Starts env (.loop condition statements) (.evaluate condition inside)
        (.condition condition statements inside)
  | ret {value : Node Label} : Starts env (.ret value) (.evaluate value env) .result

/-- How a switch goes on with a default branch in mind and some branches left. -/
inductive Selects (env : Env) (K : List Frame) :
    Option (Node Label) → List (Node Label) → Control → List Frame → Prop where
  | none : Selects env K none [] .ended K
  | default {value statements : Node Label} {items : List (Node Label)} {inner : Env}
      (listed : statements.items = .ok items) :
      Selects env K (some (.case value statements)) [] (.execute items inner) K
  | skip {default : Option (Node Label)} {branch : Node Label} {rest : List (Node Label)}
      {control : Control} {K' : List Frame} (others : Selects env K (some branch) rest control K') :
      Selects env K default (branch :: rest) control K'
  | test {default : Option (Node Label)} {branch value : Node Label} {rest : List (Node Label)}
      {subject : Value} (given : branch.content? = some (.node value)) :
      Selects env K default (branch :: rest) (.evaluate value env)
        (.case subject default branch rest env :: K)

/-- What a step can do to what is done next, to the frames that wait and to the count of calls,
where names stand for the functions of a store. -/
inductive Moves (s : Store) :
    Control → List Frame → Nat → Control → List Frame → Nat → Prop where
  /-- Something is done. -/
  | settle {c c' : Control} {K : List Frame} {n : Nat} (busy : c.isSettled = false)
      (done : c'.isSettled = true) : Moves s c K n c' K n
  /-- A frame has what it waits for. -/
  | finish {c c' : Control} {f : Frame} {K : List Frame} {n : Nat} (ready : c.isSettled = true)
      (done : c'.isSettled = true) (inside : f.activation? = none) : Moves s c (f :: K) n c' K n
  /-- A call has its result. -/
  | result {c : Control} {v : Value} {k : Nat} {K : List Frame} {n : Nat}
      (ready : c.isSettled = true) : Moves s c (.activation k :: K) n (.value v) K (n - 1)
  | start {globals : List (Node Label)} {functions : Node Label} {env : Env} {K : List Frame}
      {n : Nat} : Moves s (.start env) K n (.globals globals functions env) K n
  | globalValue {g value : Node Label} {rest : List (Node Label)} {functions : Node Label}
      {env : Env} {K : List Frame} {n : Nat} (given : g.content? = some (.node value)) :
      Moves s (.globals (g :: rest) functions env) K n (.evaluate value env)
        (.global g rest functions env :: K) n
  | globalBare {g : Node Label} {rest : List (Node Label)} {functions : Node Label}
      {env : Env} {K : List Frame} {n : Nat} :
      Moves s (.globals (g :: rest) functions env) K n (.value .nil)
        (.global g rest functions env :: K) n
  | globalDone {v : Value} {g : Node Label} {rest : List (Node Label)} {functions : Node Label}
      {env : Env} {K : List Frame} {n : Nat} :
      Moves s (.value v) (.global g rest functions env :: K) n (.globals rest functions env) K n
  | functions {functions : Node Label} {items : List (Node Label)} {env : Env} {K : List Frame}
      {n : Nat} (listed : functions.items = .ok items) :
      Moves s (.globals [] functions env) K n (.functions items env) K n
  | main {env : Env} {K : List Frame} {n : Nat} : Moves s (.functions [] env) K n (.main env) K n
  | callMain {env : Env} {k : Nat} {K : List Frame} {n : Nat}
      (found : s.findFunction env (.text "main") 0 = some k) :
      Moves s (.main env) K n (.call k []) K n
  | group {label : Label} {inner : Node Label} {env : Env} {K : List Frame} {n : Nat} :
      Moves s (.evaluate (.group label inner) env) K n (.evaluate inner env) K n
  | left {label : Label} {op : Operator} {left right : Node Label} {env : Env} {K : List Frame}
      {n : Nat} :
      Moves s (.evaluate (.binary label op left right) env) K n (.evaluate left env)
        (.left op right (.binary label op left right) env :: K) n
  | right {v : Value} {op : Operator} {right node : Node Label} {env : Env} {K : List Frame}
      {n : Nat} :
      Moves s (.value v) (.left op right node env :: K) n (.evaluate right env)
        (.right op v node :: K) n
  | test {label : Label} {op : Operator} {left right : Node Label} {decisive : Bool} {env : Env}
      {K : List Frame} {n : Nat} :
      Moves s (.evaluate (.binary label op left right) env) K n (.evaluate left env)
        (.test decisive left right env :: K) n
  | boolean {v : Value} {decisive : Bool} {left right : Node Label} {env : Env} {K : List Frame}
      {n : Nat} :
      Moves s (.value v) (.test decisive left right env :: K) n (.evaluate right env)
        (.boolean right :: K) n
  | index {label : Label} {name : Json} {offset : Node Label} {list : Nat} {env : Env}
      {K : List Frame} {n : Nat} :
      Moves s (.evaluate (.access label name offset) env) K n (.evaluate offset env)
        (.index list (.access label name offset) :: K) n
  | plainCall {label : Label} {name : Json} {key : Key} {k : Nat} {env : Env} {K : List Frame}
      {n : Nat} (isName : name.key? = some key) (found : s.findFunction env key 0 = some k) :
      Moves s (.evaluate (.call label name (.list [])) env) K n (.call k []) K n
  | firstArgument {label : Label} {name : Json} {e : Node Label} {rest : List (Node Label)}
      {env : Env} {K : List Frame} {n : Nat} :
      Moves s (.evaluate (.call label name (.list (e :: rest))) env) K n (.evaluate e env)
        (.argument name [] rest (.call label name (.list (e :: rest))) env :: K) n
  | nextArgument {v : Value} {name : Json} {done : List Value} {e node : Node Label}
      {rest : List (Node Label)} {env : Env} {K : List Frame} {n : Nat} :
      Moves s (.value v) (.argument name done (e :: rest) node env :: K) n (.evaluate e env)
        (.argument name (v :: done) rest node env :: K) n
  | lastArgument {v : Value} {name : Json} {key : Key} {done : List Value} {node : Node Label}
      {k : Nat} {env : Env} {K : List Frame} {n : Nat} (isName : name.key? = some key)
      (found : s.findFunction env key (done.length + 1) = some k) :
      Moves s (.value v) (.argument name done [] node env :: K) n
        (.call k (v :: done).reverse) K n
  | enter {k : Nat} {arguments : List Value} {f : Callable} {parameters : List (Declared Label)}
      {statements : Node Label} {home env : Env} {items : List (Node Label)} {K : List Frame}
      {n : Nat} (known : s.functions[k]? = some f) (body : f.body = .code parameters statements home)
      (listed : statements.items = .ok items) :
      Moves s (.call k arguments) K n (.execute items env) (.activation k :: K) (n + 1)
  | firstElement {label : Label} {e : Node Label} {rest : List (Node Label)} {env : Env}
      {K : List Frame} {n : Nat} :
      Moves s (.evaluate (.listLiteral label (.list (e :: rest))) env) K n (.evaluate e env)
        (.element [] rest env :: K) n
  | nextElement {v : Value} {done : List Value} {e : Node Label} {rest : List (Node Label)}
      {env : Env} {K : List Frame} {n : Nat} :
      Moves s (.value v) (.element done (e :: rest) env :: K) n (.evaluate e env)
        (.element (v :: done) rest env :: K) n
  | statement {statement : Node Label} {rest : List (Node Label)} {env : Env} {c : Control}
      {f : Frame} {K : List Frame} {n : Nat} (starts : statement.Starts env c f) :
      Moves s (.execute (statement :: rest) env) K n c (f :: .rest rest env :: K) n
  | rest {statements : List (Node Label)} {env : Env} {K : List Frame} {n : Nat} :
      Moves s .ended (.rest statements env :: K) n (.execute statements env) K n
  | target {v : Value} {n list : Nat} {offset receiver node : Node Label} {env : Env}
      {K : List Frame} {calls : Nat} :
      Moves s (.value v) (.assignment n offset receiver node env :: K) calls (.evaluate offset env)
        (.target list v receiver :: K) calls
  | branch {v : Value} {condition first second : Node Label} {env inner : Env}
      {items : List (Node Label)} {K : List Frame} {n : Nat}
      (listed : first.items = .ok items ∨ second.items = .ok items) :
      Moves s (.value v) (.branch condition first second env :: K) n (.execute items inner) K n
  | subject {v : Value} {cases : Node Label} {items : List (Node Label)} {env : Env} {c : Control}
      {K K' : List Frame} {n : Nat} (listed : cases.items = .ok items)
      (selects : Selects env K none items c K') :
      Moves s (.value v) (.subject cases env :: K) n c K' n
  | taken {v subject : Value} {default : Option (Node Label)} {value statements : Node Label}
      {rest : List (Node Label)} {env inner : Env} {items : List (Node Label)} {K : List Frame}
      {n : Nat} (listed : statements.items = .ok items) :
      Moves s (.value v) (.case subject default (.case value statements) rest env :: K) n
        (.execute items inner) K n
  | passed {v subject : Value} {default : Option (Node Label)} {branch : Node Label}
      {rest : List (Node Label)} {env : Env} {c : Control} {K K' : List Frame} {n : Nat}
      (selects : Selects env K default rest c K') :
      Moves s (.value v) (.case subject default branch rest env :: K) n c K' n
  | round {v : Value} {condition statements : Node Label} {env inner : Env}
      {items : List (Node Label)} {K : List Frame} {n : Nat}
      (listed : statements.items = .ok items) :
      Moves s (.value v) (.condition condition statements env :: K) n (.execute items inner)
        (.round condition statements env :: K) n
  | again {condition statements : Node Label} {env : Env} {K : List Frame} {n : Nat} :
      Moves s .ended (.round condition statements env :: K) n (.evaluate condition env)
        (.condition condition statements env :: K) n

/-- The functions that a store has, and the names for them. -/
def Store.ready (s : Store) : Ground :=
  ⟨s.functions, fun n => (s.block n).functions, s.blocks.size, fun _ _ _ _ => True⟩

theorem Store.on_ready (s : Store) : s.On s.ready :=
  ⟨rfl, fun _ => rfl, Nat.le_refl _⟩

/-- From a control in front of some frames a step moves on, and leaves the functions as they are. -/
def Situation.Passes (s : Situation) (c : Control) (K : List Frame) : Step → Prop :=
  Step.Goes fun m => Moves s.world.store c K s.calls m.control m.frames m.calls ∧
    m.world.store.On s.world.store.ready

section

variable {s : Situation} {c c' : Control} {K : List Frame} {env : Env} {w : World}

/-- Arguments that are all evaluated are passed to the function that their number and a name
find. -/
theorem Situation.passes_invoke {name : Json} {arguments : List Value} {node : Node Label}
    (called : ∀ key k, name.key? = some key →
      s.world.store.findFunction env key arguments.length = some k →
      Moves s.world.store c K s.calls (.call k arguments) s.frames s.calls) :
    s.Passes c K (s.invoke env name arguments node) := by
  refine goes_require fun key isName => ?_
  split
  · rename_i k found
    exact ⟨called key k (key_ok.1 isName) found, s.world.store.on_ready⟩
  · exact goes_fail (s := s)

theorem passes_evaluate (e : Node Label) :
    s.Passes (.evaluate e env) s.frames (s.evaluate e env) := by
  have on := s.world.store.on_ready
  cases e with
  | literal => exact ⟨.settle rfl rfl, on⟩
  | group => exact ⟨.group, on⟩
  | binary _ op =>
    cases op with
    | and | or => exact ⟨.test, on⟩
    | _ => exact ⟨.left, on⟩
  | access =>
    refine goes_resolve fun n v => ?_
    split
    · exact ⟨.settle rfl rfl, on⟩
    · exact goes_requireList fun list => ⟨.index, on⟩
  | call label name arguments =>
    cases arguments with
    | list items =>
      cases items with
      | nil => exact Situation.passes_invoke fun key k isName found => .plainCall isName found
      | cons first rest => exact ⟨.firstArgument, on⟩
    | _ => exact goes_fail (s := s)
  | listLiteral _ elements =>
    cases elements with
    | list items =>
      cases items with
      | nil => exact ⟨.settle rfl rfl, on.setLists⟩
      | cons first rest => exact ⟨.firstElement, on⟩
    | _ => exact goes_fail (s := s)
  | _ => exact goes_fail (s := s)

theorem passes_execute (statements : List (Node Label)) :
    s.Passes (.execute statements env) s.frames (s.executeAll statements env) := by
  have on := s.world.store.on_ready
  cases statements with
  | nil => exact ⟨.settle rfl rfl, on⟩
  | cons first rest =>
    cases first with
    | expressionStmt => exact ⟨.statement .expression, on⟩
    | declaration =>
      refine ⟨.statement ?_, on⟩
      split
      · exact .bare
      · exact .declaration
    | assignment receiver value =>
      cases receiver with
      | access => exact goes_resolve fun n _ => ⟨.statement .assignment, on⟩
      | _ => exact goes_fail (s := s)
    | conditional => exact ⟨.statement .conditional, on⟩
    | switch => exact ⟨.statement .switch, on⟩
    | loop =>
      obtain ⟨⟨debug, depth, loops⟩, program, frames, calls, w⟩ := s
      cases loops with
      | shared => exact ⟨.statement .loop, on.openBlock env⟩
      | perRound => exact ⟨.statement .loop, on⟩
    | ret => exact ⟨.statement .ret, on⟩
    | _ => exact goes_fail (s := s)

/-- The statements in a slot are next. -/
theorem Situation.passes_statements {statements : Node Label} {inner : Env} {s' : Situation}
    (moves : ∀ items, statements.items = .ok items →
      Moves s.world.store c K s.calls (.execute items inner) s'.frames s'.calls)
    (on : s'.world.store.On s.world.store.ready) :
    s.Passes c K (s'.execute statements inner) :=
  goes_require fun items listed => ⟨moves items listed, on⟩

theorem Situation.passes_take {subject : Value} {reason : String} {branch : Node Label}
    {s' : Situation} (same : s'.world.store = s.world.store)
    (moves : ∀ value statements items inner, branch = .case value statements →
      statements.items = .ok items →
      Moves s.world.store c K s.calls (.execute items inner) s'.frames s'.calls) :
    s.Passes c K (s'.take subject reason branch env) := by
  refine goes_notingText fun w noted => ?_
  have on : w.store.On s.world.store.ready := (noted.trans same) ▸ s.world.store.on_ready
  cases branch with
  | case value statements =>
    exact passes_statements (fun items listed => moves value statements items _ rfl listed)
      (on.openBlock env)
  | _ => exact goes_fail (s := s'.withWorld w)

theorem Situation.passes_select {subject : Value} {cases : List (Node Label)}
    {default : Option (Node Label)}
    (moves : ∀ c' K', Selects env s.frames default cases c' K' →
      Moves s.world.store c K s.calls c' K' s.calls) :
    s.Passes c K (s.select subject default env cases) := by
  have on := s.world.store.on_ready
  induction cases generalizing default with
  | nil =>
    cases default with
    | none => exact ⟨moves _ _ .none, on⟩
    | some branch =>
      refine passes_take rfl fun value statements items inner given listed => ?_
      subst given
      exact moves _ _ (.default listed)
  | cons branch rest ih =>
    simp only [Situation.select]
    split
    · exact goes_fail (s := s)
    · exact ih fun c' K' selects => moves c' K' (.skip selects)
    · rename_i value given
      exact ⟨moves _ _ (.test given), on⟩
    · exact goes_fail (s := s)

/-- A value for a frame. -/
theorem passes_resume (v : Value) (frame : Frame) :
    s.Passes (.value v) (frame :: s.frames) (s.resume v frame) := by
  have on := s.world.store.on_ready
  cases frame with
  | global g =>
    cases g with
    | global label name isMutable typeName value =>
      refine goes_require fun w added => goes_notingText fun w' same => ?_
      have same : w'.store = w.store := same
      exact ⟨.globalDone, same ▸ World.addFree_on on added⟩
    | _ => exact goes_fail (s := s)
  | left => exact ⟨.right, on⟩
  | right => exact goes_require fun _ _ => ⟨.finish rfl rfl rfl, on⟩
  | test =>
    refine goes_requireBoolean fun b => ?_
    split
    · exact ⟨.finish rfl rfl rfl, on⟩
    · exact ⟨.boolean, on⟩
  | boolean => exact goes_requireBoolean fun b => ⟨.finish rfl rfl rfl, on⟩
  | index =>
    simp only [Situation.resume]
    exact goes_requireIndex fun i => ⟨.finish rfl rfl rfl, on⟩
  | argument name done rest node env =>
    cases rest with
    | nil =>
      refine Situation.passes_invoke fun key k isName found => .lastArgument isName ?_
      rw [List.length_reverse] at found
      exact found
    | cons e rest => exact ⟨.nextArgument, on⟩
  | element done rest env =>
    cases rest with
    | nil => exact ⟨.finish rfl rfl rfl, on.setLists⟩
    | cons e rest => exact ⟨.nextElement, on⟩
  | discard => exact ⟨.finish rfl rfl rfl, on⟩
  | declaration =>
    refine goes_require fun key _ => goes_notingText fun w same => ?_
    exact ⟨.finish rfl rfl rfl, same ▸ on.add⟩
  | assignment =>
    simp only [Situation.resume]
    split
    · exact ⟨.finish rfl rfl rfl, on⟩
    · split
      · exact goes_fail (s := s)
      · split
        · exact ⟨.finish rfl rfl rfl, on.setValue⟩
        · exact goes_requireList fun list => ⟨.target, on⟩
  | target =>
    simp only [Situation.resume]
    exact goes_requireIndex fun i => ⟨.finish rfl rfl rfl, on.setLists⟩
  | branch condition first second env =>
    refine goes_requireBoolean fun b => goes_notingText fun w same => ?_
    have on : w.store.On s.world.store.ready := same ▸ on
    refine Situation.passes_statements (fun items listed => .branch ?_) (on.openBlock env)
    cases b with
    | true => exact Or.inl listed
    | false => exact Or.inr listed
  | subject =>
    exact goes_require fun items listed =>
      Situation.passes_select fun c' K' selects => .subject listed selects
  | case =>
    refine goes_require fun same _ => ?_
    split
    · refine Situation.passes_take rfl fun value statements items inner given listed => ?_
      subst given
      exact .taken listed
    · exact Situation.passes_select fun c' K' selects => .passed selects
  | condition condition statements env =>
    refine goes_requireBoolean fun b => goes_notingText fun w same => ?_
    have on : w.store.On s.world.store.ready := same ▸ on
    obtain ⟨⟨debug, depth, loops⟩, program, frames, calls, _⟩ := s
    cases b with
    | false => exact ⟨.finish rfl rfl rfl, on⟩
    | true =>
      cases loops with
      | shared => exact Situation.passes_statements (fun items listed => .round listed) on
      | perRound =>
        exact Situation.passes_statements (fun items listed => .round listed) (on.openBlock env)
  | result => exact ⟨.finish rfl rfl rfl, on⟩
  | activation => exact ⟨.result rfl, on⟩
  | round | rest => exact ⟨.finish rfl rfl rfl, on⟩

/-- The end of a statement in front of a frame. -/
theorem passes_proceed (frame : Frame) :
    s.Passes .ended (frame :: s.frames) (s.proceed frame) := by
  have on := s.world.store.on_ready
  cases frame with
  | rest => exact ⟨.rest, on⟩
  | round => exact ⟨.again, on⟩
  | activation => exact ⟨.result rfl, on⟩
  | _ => exact ⟨.finish rfl rfl rfl, on⟩

/-- A `RETURN` in front of a frame. -/
theorem passes_unwind (v : Value) (frame : Frame) :
    s.Passes (.leave v) (frame :: s.frames) (s.unwind v frame) := by
  have on := s.world.store.on_ready
  cases frame with
  | activation => exact ⟨.result rfl, on⟩
  | _ => exact ⟨.finish rfl rfl rfl, on⟩

theorem passes_call (n : Nat) (arguments : List Value) :
    s.Passes (.call n arguments) s.frames (s.call n arguments) := by
  unfold Situation.call
  split
  · exact ⟨.settle rfl rfl, s.world.store.on_ready⟩
  · rename_i f known
    refine goes_noting fun w same => ?_
    have on : w.store.On s.world.store.ready := same ▸ s.world.store.on_ready
    simp only [Situation.withWorld]
    split
    · exact goes_require fun text _ => ⟨.settle rfl rfl, on⟩
    · rename_i parameters statements home body
      have opened : (w.openBlock home).1.store.On s.world.store.ready := on.openBlock home
      have bound := World.bind_on opened (w.openBlock home).2 s.program.found
        (parameters.zip arguments)
      change Step.Goes _ (if s.settings.depth ≤ s.calls then _ else _)
      by_cases deep : s.settings.depth ≤ s.calls
      · rw [if_pos deep]
        exact ⟨_, rfl⟩
      · rw [if_neg deep]
        split
        · exact ⟨_, rfl⟩
        · rename_i bind
          rw [bind] at bound
          exact Situation.passes_statements (fun items listed => .enter known body listed) bound

theorem passes_global (g : Node Label) (rest : List (Node Label)) (functions : Node Label) :
    s.Passes (.globals (g :: rest) functions env) s.frames (s.global g rest functions env) := by
  have on := s.world.store.on_ready
  simp only [Situation.global]
  split
  · exact goes_fail (s := s)
  · exact ⟨.globalBare, on⟩
  · rename_i value given
    exact ⟨.globalValue given, on⟩
  · exact goes_fail (s := s)

end

/-- A store takes up a function of a program, for calls of its name from a block. -/
def Store.Takes (env : Env) (f : Node Label) (s s' : Store) : Prop :=
  ∃ label name parameters returnTypeName statements header returns key n,
    f = .function label name (.list parameters) returnTypeName statements ∧
      f.headerTypes parameters = .ok header ∧ name.key? = some key ∧
      s.defineFunction env key ⟨name, header.length, header.map (·.2), returns,
        .code (header.map (·.1)) statements env⟩ = some (s', n)

/-- What a step that leads to another machine does: it moves on and leaves the functions as they
are, or defines the next function of the program. -/
inductive Machine.Becomes : Machine → Machine → Prop where
  | move {m m' : Machine}
      (moves : Moves m.world.store m.control m.frames m.calls m'.control m'.frames m'.calls)
      (on : m'.world.store.On m.world.store.ready) : Becomes m m'
  | define {f : Node Label} {rest : List (Node Label)} {env : Env} {K : List Frame} {calls : Nat}
      {w w' : World} (takes : w.store.Takes env f w'.store) :
      Becomes ⟨.functions (f :: rest) env, K, calls, w⟩ ⟨.functions rest env, K, calls, w'⟩

theorem passes_start {s : Situation} {env : Env} :
    s.Passes (.start env) s.frames (s.start env) := by
  unfold Situation.start
  split
  · exact goes_require fun globals _ => ⟨.start, s.world.store.on_ready⟩
  · exact goes_fail (s := s)

theorem passes_main {settings : Settings} {program : Annotated} {env : Env} {K : List Frame}
    {calls : Nat} {w : World} :
    Situation.Passes ⟨settings, program, K, calls, w⟩ (.main env) K
      (Machine.step settings program ⟨.main env, K, calls, w⟩) := by
  simp only [Machine.step]
  split
  · rename_i k found
    exact ⟨.callMain found, w.store.on_ready⟩
  · exact goes_fail

theorem passes_defineFunction {s : Situation} {env : Env} (f : Node Label)
    (rest : List (Node Label)) :
    (s.defineFunction f rest env).Goes
      (Machine.Becomes ⟨.functions (f :: rest) env, s.frames, s.calls, s.world⟩) := by
  cases f with
  | function label name parameters returnTypeName statements =>
    refine goes_require fun ⟨header, returns, key⟩ headed => ?_
    simp only [Except.bind_eq_ok] at headed
    obtain ⟨parameters, listed, _, headed, _, -, _, isName, same⟩ := headed
    cases same
    obtain rfl := items_ok.1 listed
    simp only
    split
    · exact goes_fail (s := s)
    · rename_i store n defined
      refine goes_noting fun w same => ?_
      have same : w.store = store := same
      subst same
      exact .define ⟨_, _, _, _, _, _, returns, _, n, rfl, headed, key_ok.1 isName, defined⟩
  | _ => exact goes_fail (s := s)

/-- All that a step can do. -/
theorem Machine.becomes {m m' : Machine} {settings : Settings} {program : Annotated}
    (next : m.step settings program = .next m') : m.Becomes m' := by
  obtain ⟨control, K, calls, w⟩ := m
  have moved {s : Situation} {c : Control} {K : List Frame} {step : Step}
      (passes : s.Passes c K step) (next : step = .next m') :
      Machine.Becomes ⟨c, K, s.calls, s.world⟩ m' := by
    rw [next] at passes
    exact .move passes.1 passes.2
  cases control with
  | start env => exact moved passes_start next
  | globals rest functions env =>
    cases rest with
    | nil =>
      have passes : Situation.Passes ⟨settings, program, K, calls, w⟩ (.globals [] functions env) K
          (Machine.step settings program ⟨.globals [] functions env, K, calls, w⟩) :=
        goes_require fun items listed => ⟨.functions listed, w.store.on_ready⟩
      exact moved passes next
    | cons g rest => exact moved (passes_global g rest functions) next
  | functions rest env =>
    cases rest with
    | nil =>
      cases next
      exact .move .main w.store.on_ready
    | cons f rest =>
      have defines : Step.Goes _
          (Situation.defineFunction ⟨settings, program, K, calls, w⟩ f rest env) :=
        passes_defineFunction f rest
      have next : Situation.defineFunction _ f rest env = .next m' := next
      rw [next] at defines
      exact defines
  | main env => exact moved passes_main next
  | evaluate e env => exact moved (passes_evaluate e) next
  | execute statements env => exact moved (passes_execute statements) next
  | call n arguments => exact moved (passes_call n arguments) next
  | value v =>
    cases K with
    | nil => cases next
    | cons frame K => exact moved (passes_resume v frame) next
  | ended =>
    cases K with
    | nil => cases next
    | cons frame K => exact moved (passes_proceed frame) next
  | leave v =>
    cases K with
    | nil => cases next
    | cons frame K => exact moved (passes_unwind v frame) next

end PlcLang
