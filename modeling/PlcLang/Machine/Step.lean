import PlcLang.Machine.State
import PlcLang.Value.Operators
import PlcLang.Checker.Program

namespace PlcLang

namespace Step

/-- The run ends with a fault. -/
def fail (w : World) (f : Fault) : Step :=
  .halt w (.error f)

/-- The run goes on if there is no fault. -/
@[inline]
def require {α : Type} (w : World) (r : Except Fault α) (k : α → Step) : Step :=
  match r with
  | .ok a => k a
  | .error f => .fail w f

end Step

/-- The rules use the settings, the program, the frames that wait, the calls that are open, and the
world. -/
structure Situation where
  settings : Settings
  program : Annotated
  frames : List Frame
  calls : Nat
  world : World

namespace Situation

/-- Goes on with a control. -/
@[inline]
def go (s : Situation) (control : Control) : Step :=
  .next ⟨control, s.frames, s.calls, s.world⟩

/-- Goes on with a control, for whose outcome a frame waits. -/
@[inline]
def await (s : Situation) (frame : Frame) (control : Control) : Step :=
  .next ⟨control, frame :: s.frames, s.calls, s.world⟩

/-- Has a frame wait. -/
@[inline]
def behind (s : Situation) (frame : Frame) : Situation :=
  { s with frames := frame :: s.frames }

@[inline]
def fail (s : Situation) (f : Fault) : Step :=
  .fail s.world f

/-- Stops with a problem at a part of the program. -/
@[inline]
def problem (s : Situation) (cause : Cause) (subject : Option (Node Label)) : Step :=
  s.fail (.ofCause cause subject)

@[inline]
def require {α : Type} (s : Situation) (r : Except Fault α) (k : α → Step) : Step :=
  .require s.world r k

@[inline]
def withWorld (s : Situation) (w : World) : Situation :=
  { s with world := w }

/-- Makes a note if the debug level asks for it; only then are its texts made. -/
@[inline]
def noting (s : Situation) (level : Nat) (n : World → Except Fault Note)
    (k : Situation → Step) : Step :=
  if s.settings.debug < level then k s
  else s.require (n s.world) fun n => k (s.withWorld (s.world.note n))

/-- Notes a text made from a value. -/
@[inline]
def notingText (s : Situation) (level : Nat) (v : Value) (n : String → Note)
    (k : Situation → Step) : Step :=
  s.noting level (fun w => (w.text s.settings v).map n) k

/-- The statements in a slot run in a block. -/
def execute (s : Situation) (statements : Node Label) (env : Env) : Step :=
  s.require statements.items fun statements => s.go (.execute statements env)

/-- The statements in a slot run in a new block inside `env`. -/
def enter (s : Situation) (statements : Node Label) (env : Env) : Step :=
  let (w, inner) := s.world.openBlock env
  (s.withWorld w).execute statements inner

/-- What the checker found out about a node of the program. -/
def annotation (s : Situation) (label : Label) : Annotation :=
  s.program.found.of label

/-- A Boolean that an expression must have. -/
@[inline]
def requireBoolean (s : Situation) (v : Value) (e : Node Label) (k : Bool → Step) : Step :=
  match v with
  | .boolean b => k b
  | _ => s.problem (.notBoolean v.tag) e

/-- The list that a variable accessed by `node` must hold. -/
@[inline]
def requireList (s : Situation) (v : Value) (node : Node Label) (k : Nat → Step) : Step :=
  match v with
  | .list address => k address
  | _ => s.problem (.notIndexable v.tag) node

/-- An index into a list: an integer from zero to below its length. -/
@[inline]
def requireIndex (s : Situation) (list : Nat) (v : Value) (node : Node Label) (k : Nat → Step) :
    Step :=
  match v with
  | .integer n =>
    let length := (s.world.store.lists[list]?.getD #[]).size
    if n < 0 ∨ length ≤ n then
      s.fail (.ofInteger n (fun n => .indexRange n length) node)
    else k n.toNat
  | _ => s.problem (.indexTag v.tag) node

/-- The variable that a name stands for at a point of a program. -/
@[inline]
def resolve (s : Situation) (env : Env) (binding : Option Binding) (name : Json)
    (node : Node Label) (k : Nat → Variable → Step) : Step :=
  match s.world.store.resolve env (binding.map (·.id)) name with
  | none => s.fail (.unfit .notAName)
  | some none => s.problem (.undefinedVariable .run name) node
  | some (some n) =>
    match s.world.store.vars[n]? with
    | some v => k n v
    | none => s.problem (.undefinedVariable .run name) node

/-- A call whose arguments are evaluated. -/
def invoke (s : Situation) (env : Env) (name : Json) (arguments : List Value)
    (node : Node Label) : Step :=
  s.require name.key fun key =>
    match s.world.store.findFunction env key arguments.length with
    | some n => s.go (.call n arguments)
    | none => s.problem (.undefinedFunction .run name arguments.length) node

def evaluate (s : Situation) (e : Node Label) (env : Env) : Step :=
  match e with
  | .literal _ value => s.go (.value value.value)
  | .group _ inner => s.go (.evaluate inner env)
  | .binary _ .and left right => s.await (.test false left right env) (.evaluate left env)
  | .binary _ .or left right => s.await (.test true left right env) (.evaluate left env)
  | .binary _ op left right => s.await (.left op right e env) (.evaluate left env)
  | .access label name offset =>
    s.resolve env (s.annotation label).binding name e fun _ v =>
      if offset.isAbsent then s.go (.value v.value)
      else s.requireList v.value e fun list => s.await (.index list e) (.evaluate offset env)
  | .call _ name arguments =>
    s.require arguments.items fun
      | [] => s.invoke env name [] e
      | first :: rest => s.await (.argument name [] rest e env) (.evaluate first env)
  | .listLiteral _ elements =>
    s.require elements.items fun
      | [] =>
        let (store, address) := s.world.store.newList #[]
        (s.withWorld { s.world with store := store }).go (.value (.list address))
      | first :: rest => s.await (.element [] rest env) (.evaluate first env)
  | node => s.fail (.unexpectedNode .evaluate node.className)

def executeOne (s : Situation) (statement : Node Label) (env : Env) : Step :=
  match statement with
  | .expressionStmt e => s.await .discard (.evaluate e env)
  | .declaration label name _ value =>
    s.await (.declaration label name env)
      (if value.isAbsent then .value .nil else .evaluate value env)
  | .assignment receiver value =>
    match receiver with
    | .access label name offset =>
      s.resolve env (s.annotation label).binding name receiver fun n _ =>
        s.await (.assignment n offset receiver statement env) (.evaluate value env)
    | _ => s.problem .targetNotAccess statement
  | .conditional condition thenStatements elseStatements =>
    s.await (.branch condition thenStatements elseStatements env) (.evaluate condition env)
  | .switch condition cases => s.await (.subject cases env) (.evaluate condition env)
  | .loop condition statements =>
    let (w, inside) := match s.settings.loops with
      | .shared => s.world.openBlock env
      | .perRound => (s.world, env)
    (s.withWorld w).await (.condition condition statements inside) (.evaluate condition inside)
  | .ret value => s.await .result (.evaluate value env)
  | node => s.fail (.unexpectedNode .execute node.className)

/-- The first of some statements; the others wait behind it. -/
def executeAll (s : Situation) (statements : List (Node Label)) (env : Env) : Step :=
  match statements with
  | [] => s.go .ended
  | first :: rest => (s.behind (.rest rest env)).executeOne first env

/-- The branch of a switch that is taken, for a reason. -/
def take (s : Situation) (subject : Value) (reason : String) (branch : Node Label) (env : Env) :
    Step :=
  s.notingText 3 subject (.switched · reason) fun s =>
    match branch with
    | .case _ statements => s.enter statements env
    | _ => s.fail (.unfit .missingPart)

/-- The branches of a switch in turn: a default is kept in mind, and a value is evaluated. -/
def select (s : Situation) (subject : Value) (default : Option (Node Label)) (env : Env) :
    List (Node Label) → Step
  | [] =>
    match default with
    | none => s.go .ended
    | some branch => s.take subject "default" branch env
  | case :: rest =>
    match case.content? with
    | none => s.fail (.unfit .missingPart)
    | some .nothing => select s subject (some case) env rest
    | some (.node value) =>
      s.await (.case subject default case rest env) (.evaluate value env)
    | some (.bare value) => s.fail (.unexpectedNode .evaluate value.className)

/-- A call: its arguments become variables of a new block in the home of the function. -/
def call (s : Situation) (n : Nat) (arguments : List Value) : Step :=
  match s.world.store.functions[n]? with
  | none => s.go (.value .nil)
  | some f =>
    s.noting 1 (fun w => (arguments.mapM (w.text s.settings)).map (.call f.name)) fun s =>
      match f.body with
      | .print =>
        s.require (s.world.text s.settings (arguments.headD .nil)) fun text =>
          (s.withWorld (s.world.print text)).go (.value .nil)
      | .code parameters statements home =>
        if s.settings.depth ≤ s.calls then s.fail .tooDeep
        else
          let (w, env) := s.world.openBlock home
          match w.bind env s.program.found (parameters.zip arguments) with
          | (w, some f) => .fail w f
          | (w, none) =>
            ({ s with world := w, calls := s.calls + 1 }.behind (.activation n)).execute statements
              env

/-- The first of some globals; the others, and the functions, wait for its value. -/
def global (s : Situation) (g : Node Label) (rest : List (Node Label)) (functions : Node Label)
    (env : Env) : Step :=
  match g.content? with
  | none => s.fail (.unfit .missingPart)
  | some .nothing => s.await (.global g rest functions env) (.value .nil)
  | some (.node value) => s.await (.global g rest functions env) (.evaluate value env)
  | some (.bare value) => s.fail (.unexpectedNode .evaluate value.className)

/-- A value for the frame that waited. -/
def resume (s : Situation) (v : Value) (frame : Frame) : Step :=
  match frame with
  | .global g rest functions env =>
    match g with
    | .global label name isMutable _ _ =>
      s.require (s.world.addFree env name (s.annotation label).binding isMutable v g) fun w =>
        (s.withWorld w).notingText 2 v (.global name) fun s => s.go (.globals rest functions env)
    | _ => s.fail (.unfit .missingPart)
  | .left op right node env => s.await (.right op v node) (.evaluate right env)
  | .right op left node =>
    s.require (s.world.store.lists.apply s.settings.depth op left v node)
      fun v => s.go (.value v)
  | .test decisive left right env =>
    s.requireBoolean v left fun b =>
      if b = decisive then s.go (.value (.boolean b))
      else s.await (.boolean right) (.evaluate right env)
  | .boolean e => s.requireBoolean v e fun b => s.go (.value (.boolean b))
  | .index list node =>
    s.requireIndex list v node fun i =>
      s.go (.value ((s.world.store.lists[list]?.getD #[])[i]?.getD .nil))
  | .argument name done [] node env => s.invoke env name (v :: done).reverse node
  | .argument name done (e :: rest) node env =>
    s.await (.argument name (v :: done) rest node env) (.evaluate e env)
  | .element done [] _ =>
    let (store, address) := s.world.store.newList (v :: done).reverse.toArray
    (s.withWorld { s.world with store := store }).go (.value (.list address))
  | .element done (e :: rest) env => s.await (.element (v :: done) rest env) (.evaluate e env)
  | .discard => s.go .ended
  | .declaration label name env =>
    s.require name.key fun key =>
      (s.withWorld (s.world.add env key name (s.annotation label).binding true v)).notingText 2 v
        (.declared name) fun s => s.go .ended
  | .assignment n offset receiver node env =>
    match s.world.store.vars[n]? with
    | none => s.go .ended
    | some x =>
      if !x.isMutable then s.problem (.immutable x.name) node
      else if offset.isAbsent then
        (s.withWorld { s.world with store := s.world.store.setValue n v }).go .ended
      else
        s.requireList x.value receiver fun list =>
          s.await (.target list v receiver) (.evaluate offset env)
  | .target list value receiver =>
    s.requireIndex list v receiver fun i =>
      (s.withWorld { s.world with store := s.world.store.setElement list i value }).go .ended
  | .branch condition thenStatements elseStatements env =>
    s.requireBoolean v condition fun b =>
      s.notingText 3 v (.condition "if") fun s =>
        s.enter (if b then thenStatements else elseStatements) env
  | .subject cases env => s.require cases.items fun cases => s.select v none env cases
  | .case subject default case rest env =>
    s.require (s.world.store.lists.equal s.settings.depth v subject) fun same =>
      if same then s.take subject "case" case env else s.select subject default env rest
  | .condition condition statements env =>
    s.requireBoolean v condition fun b =>
      s.notingText 3 v (.condition "while") fun s =>
        if b then
          let (w, inside) := match s.settings.loops with
            | .shared => (s.world, env)
            | .perRound => s.world.openBlock env
          ((s.withWorld w).behind (.round condition statements env)).execute statements inside
        else s.go .ended
  | .result => s.go (.leave v)
  | .activation _ => { s with calls := s.calls - 1 }.go (.value v)
  | .round .. | .rest .. => s.go (.value v)

/-- A statement has ended in front of a frame. -/
def proceed (s : Situation) (frame : Frame) : Step :=
  match frame with
  | .rest statements env => s.go (.execute statements env)
  | .round condition statements env =>
    s.await (.condition condition statements env) (.evaluate condition env)
  | .activation _ => { s with calls := s.calls - 1 }.go (.value .nil)
  | _ => s.go .ended

/-- A `RETURN` passes every frame up to the call it leaves. -/
def unwind (s : Situation) (v : Value) (frame : Frame) : Step :=
  match frame with
  | .activation _ => { s with calls := s.calls - 1 }.go (.value v)
  | _ => s.go (.leave v)

/-- Defines a function of the program. -/
def defineFunction (s : Situation) (f : Node Label) (rest : List (Node Label)) (env : Env) :
    Step :=
  match f with
  | .function _ name parameters returnTypeName statements =>
    let header : Except Fault (List (Declared Label × Ty) × Option Ty × Key) := do
      let parameters ← f.headerTypes (← parameters.items)
      return (parameters, ← resolveOptional returnTypeName f, ← name.key)
    s.require header fun (parameters, returns, key) =>
      let callable : Callable := ⟨name, parameters.length, parameters.map (·.2), returns,
        .code (parameters.map (·.1)) statements env⟩
      match s.world.store.defineFunction env key callable with
      | none => s.problem (.duplicateFunction .run name callable.arity) f
      | some (store, _) =>
        (s.withWorld { s.world with store := store }).noting 2
          (fun _ => .ok (.defined name callable.arity)) fun s => s.go (.functions rest env)
  | _ => s.fail (.unfit .missingPart)

/-- The program begins with its globals. -/
def start (s : Situation) (env : Env) : Step :=
  match s.program.tree with
  | .source globals functions =>
    s.require globals.items fun globals => s.go (.globals globals functions env)
  | _ => s.fail (.unfit .missingPart)

end Situation

namespace Machine

/-- One step of a run of a program. -/
def step (settings : Settings) (program : Annotated) (m : Machine) : Step :=
  let s : Situation := ⟨settings, program, m.frames, m.calls, m.world⟩
  match m.control with
  | .start env => s.start env
  | .globals [] functions env =>
    s.require functions.items fun functions => s.go (.functions functions env)
  | .globals (g :: rest) functions env => s.global g rest functions env
  | .functions [] env => s.go (.main env)
  | .functions (f :: rest) env => s.defineFunction f rest env
  | .main env =>
    match s.world.store.findFunction env (.text "main") 0 with
    | some n => s.go (.call n [])
    | none => s.problem (.noMain .run) program.tree
  | .evaluate e env => s.evaluate e env
  | .execute statements env => s.executeAll statements env
  | .call n arguments => s.call n arguments
  | .value v =>
    match m.frames with
    | [] => .halt m.world (.ok v)
    | frame :: frames => { s with frames := frames }.resume v frame
  | .ended =>
    match m.frames with
    | [] => .halt m.world (.ok .nil)
    | frame :: frames => { s with frames := frames }.proceed frame
  | .leave v =>
    match m.frames with
    | [] => .halt m.world (.ok v)
    | frame :: frames => { s with frames := frames }.unwind v frame

/-- Runs until the end, at most so many steps; none if they do not suffice. -/
def run (settings : Settings) (program : Annotated) :
    Nat → Machine → Option (World × Except Fault Value)
  | 0, _ => none
  | steps + 1, m =>
    match m.step settings program with
    | .next m => run settings program steps m
    | .halt w r => some (w, r)

/-- A program about to run in a block. -/
def initial (env : Env) (w : World) : Machine :=
  ⟨.start env, [], 0, w⟩

end Machine

end PlcLang
