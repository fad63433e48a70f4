import PlcLang.Machine.Step
import PlcLang.Proofs.DeadCode.Live
import PlcLang.Proofs.Running.Storage

/-! What the rules do with a program without the statements behind a `RETURN`. -/

namespace PlcLang

section

variable (f : Label → Label)

def Body.live : Body → Body
  | .print => .print
  | .code parameters statements home =>
    .code (parameters.map (Declared.map f)) (statements.live f).cut home

def Callable.live (c : Callable) : Callable :=
  { c with body := c.body.live f }

def Store.live (s : Store) : Store :=
  { s with functions := s.functions.map (Callable.live f) }

def World.live (w : World) : World :=
  { w with store := w.store.live f }

def Control.live : Control → Control
  | .globals others code env => .globals (Node.allLive f others) (code.live f) env
  | .functions others env => .functions (Node.allLive f others) env
  | .evaluate e env => .evaluate (e.live f) env
  | .execute statements env => .execute (Node.liveBlock f statements) env
  | control => control

def Frame.live : Frame → Frame
  | .global g others code env => .global (g.live f) (Node.allLive f others) (code.live f) env
  | .left op second node env => .left op (second.live f) (node.live f) env
  | .right op v node => .right op v (node.live f)
  | .test decisive one second env => .test decisive (one.live f) (second.live f) env
  | .boolean e => .boolean (e.live f)
  | .index list node => .index list (node.live f)
  | .argument name done others node env =>
    .argument name done (Node.allLive f others) (node.live f) env
  | .element done others env => .element done (Node.allLive f others) env
  | .declaration label name env => .declaration (f label) name env
  | .assignment n offset receiver node env =>
    .assignment n (offset.live f) (receiver.live f) (node.live f) env
  | .target list v receiver => .target list v (receiver.live f)
  | .branch e thenStatements elseStatements env =>
    .branch (e.live f) (thenStatements.live f).cut (elseStatements.live f).cut env
  | .subject cases env => .subject (cases.live f) env
  | .case v default this others env =>
    .case v (default.map (Node.live f)) (this.live f) (Node.allLive f others) env
  | .condition e statements env => .condition (e.live f) (statements.live f).cut env
  | .round e statements env => .round (e.live f) (statements.live f).cut env
  | .rest statements env => .rest (Node.liveBlock f statements) env
  | frame => frame

/-- The frames that wait in a run of the program without such statements. Only those that wait
behind a `RETURN` that is being worked out are missing. -/
inductive FramesLive : List Frame → List Frame → Prop where
  | nil : FramesLive [] []
  | cons {frame : Frame} {K K' : List Frame} (below : FramesLive K K') :
      FramesLive (frame :: K) (frame.live f :: K')
  | dead {statements : List (Node Label)} {env : Env} {K K' : List Frame}
      (below : FramesLive K K') :
      FramesLive (.result :: .rest statements env :: K) (.result :: .rest [] env :: K')

/-- The machine of that run, at the same point. -/
inductive Machine.Lives : Machine → Machine → Prop where
  | here {control : Control} {K K' : List Frame} {calls : Nat} {w : World}
      (frames : FramesLive f K K') :
      Lives ⟨control, K, calls, w⟩ ⟨control.live f, K', calls, w.live f⟩
  | leaving {v : Value} {statements : List (Node Label)} {env : Env} {K K' : List Frame}
      {calls : Nat} {w : World} (frames : FramesLive f K K') :
      Lives ⟨.leave v, .rest statements env :: K, calls, w⟩
        ⟨.leave v, .rest [] env :: K', calls, w.live f⟩

inductive Step.Lives : Step → Step → Prop where
  | next {m m' : Machine} (same : m.Lives f m') : Lives (.next m) (.next m')
  | halt {w : World} {result : Except Fault Value} :
      Lives (.halt w result) (.halt (w.live f) (liveResult f id result))

/-- The second program is the first without such statements. -/
structure Annotated.Lives (p q : Annotated) : Prop where
  tree : q.tree = p.tree.live f
  found : ∀ label, q.found.of (f label) = p.found.of label

/-- The rules see the second machine at the point where they see the first. -/
structure Situation.Lives (s s' : Situation) : Prop where
  settings : s'.settings = s.settings
  program : s.program.Lives f s'.program
  frames : FramesLive f s.frames s'.frames
  calls : s'.calls = s.calls
  world : s'.world = s.world.live f

end

namespace World

variable {f : Label → Label} {w : World} {env : Env} {v : Value}

theorem addFree_live (name : Json) (binding : Option Binding) (isMutable : Bool)
    (subject : Option (Node Label)) :
    (w.live f).addFree env name binding isMutable v (subject.map (Node.live f)) =
      liveResult f (World.live f) (w.addFree env name binding isMutable v subject) := by
  have plain := key_live (f := f) name
  cases isName : name.key with
  | error e =>
    rw [isName] at plain
    simp only [addFree, isName]
    exact congrArg Except.error (Except.error.inj plain)
  | ok key =>
    rw [addFree_eq isName, addFree_eq isName]
    change (if w.store.taken env key then _ else _) = _
    split <;> rfl

/-- Parameters with their arguments become variables of a block, up to the same one. -/
theorem bind_live {found found' : Annotations}
    (known : ∀ label, found'.of (f label) = found.of label)
    (arguments : List (Declared Label × Value)) :
    (w.live f).bind env found' (arguments.map (Prod.map (Declared.map f) id)) =
      Prod.map (World.live f) (Option.map (Fault.live f)) (w.bind env found arguments) := by
  induction arguments generalizing w with
  | nil => rfl
  | cons argument rest ih =>
    obtain ⟨p, a⟩ := argument
    have name : (p.map f).name = p.name := rfl
    have label : (p.map f).label = f p.label := rfl
    have plain := key_live (f := f) p.name
    simp only [List.map_cons, Prod.map, id, bind, name, label]
    cases isName : p.name.key with
    | error e =>
      rw [isName] at plain
      exact congrArg (Prod.mk _ ∘ some) (Except.error.inj plain)
    | ok key =>
      change (if w.store.taken env key then _ else _) = _
      by_cases taken : w.store.taken env key = true
      · simp only [if_pos taken]
        rfl
      · simp only [if_neg taken, known]
        exact ih (w := w.add env key p.name (found.of p.label).binding true a)

end World

theorem Store.defineFunction_live {f : Label → Label} {s : Store} {env : Env} {key : Key}
    (c : Callable) : (s.live f).defineFunction env key (c.live f) =
      (s.defineFunction env key c).map (Prod.map (Store.live f) id) := by
  have arity : (c.live f).arity = c.arity := rfl
  have block : (s.live f).block env.block = s.block env.block := rfl
  simp only [defineFunction, arity, block]
  split
  · rfl
  · simp only [live, Array.size_map, Array.map_push, Option.map_some, Prod.map, id]

namespace Situation.Lives

variable {f : Label → Label} {s s' : Situation} {env : Env} {v : Value} {w : World}

theorem withWorld (h : s.Lives f s') : (s.withWorld w).Lives f (s'.withWorld (w.live f)) :=
  ⟨h.settings, h.program, h.frames, h.calls, rfl⟩

theorem behind (h : s.Lives f s') (frame : Frame) :
    (s.behind frame).Lives f (s'.behind (frame.live f)) :=
  ⟨h.settings, h.program, .cons h.frames, h.calls, h.world⟩

theorem fail (h : s.Lives f s') (e : Fault) : (s.fail e).Lives f (s'.fail (e.live f)) := by
  simp only [Situation.fail, h.world]
  exact .halt

theorem problem (h : s.Lives f s') (cause : Cause) (subject : Node Label) :
    (s.problem cause subject).Lives f (s'.problem cause (subject.live f)) :=
  h.fail (.ofCause cause subject)

theorem go (h : s.Lives f s') (control : Control) :
    (s.go control).Lives f (s'.go (control.live f)) := by
  simp only [Situation.go, h.calls, h.world]
  exact .next (.here h.frames)

theorem await (h : s.Lives f s') (frame : Frame) (control : Control) :
    (s.await frame control).Lives f (s'.await (frame.live f) (control.live f)) := by
  simp only [Situation.await, h.calls, h.world]
  exact .next (.here (.cons h.frames))

theorem require {α β : Type} {g : α → β} {x : Except Fault α} {x' : Except Fault β}
    {k : α → Step} {k' : β → Step} (h : s.Lives f s') (hx : x' = liveResult f g x)
    (hk : ∀ a, (k a).Lives f (k' (g a))) : (s.require x k).Lives f (s'.require x' k') := by
  subst hx
  cases x with
  | ok a => exact hk a
  | error e => exact h.fail e

theorem noting {level : Nat} {n n' : World → Except Fault Note} {k k' : Situation → Step}
    (h : s.Lives f s') (hn : n' s'.world = liveResult f id (n s.world))
    (hk : ∀ t t' : Situation, t.Lives f t' → (k t).Lives f (k' t')) :
    (s.noting level n k).Lives f (s'.noting level n' k') := by
  unfold Situation.noting
  rw [h.settings]
  split
  · exact hk _ _ h
  · refine h.require hn fun note => hk _ _ ?_
    rw [h.world]
    exact h.withWorld

theorem text (h : s.Lives f s') (v : Value) :
    s'.world.text s'.settings v = liveResult f id (s.world.text s.settings v) := by
  rw [h.world, h.settings]
  exact liveResult_id_of (Lists.text_at ..)

theorem notingText {level : Nat} {n : String → Note} {k k' : Situation → Step}
    (h : s.Lives f s') (hk : ∀ t t' : Situation, t.Lives f t' → (k t).Lives f (k' t')) :
    (s.notingText level v n k).Lives f (s'.notingText level v n k') :=
  h.noting (liveResult_bind (h.text v) fun _ => rfl) hk

theorem requireBoolean {e : Node Label} {k k' : Bool → Step} (h : s.Lives f s')
    (hk : ∀ b, (k b).Lives f (k' b)) :
    (s.requireBoolean v e k).Lives f (s'.requireBoolean v (e.live f) k') := by
  cases v with
  | boolean b => exact hk b
  | _ => exact h.problem _ e

theorem requireList {e : Node Label} {k k' : Nat → Step} (h : s.Lives f s')
    (hk : ∀ list, (k list).Lives f (k' list)) :
    (s.requireList v e k).Lives f (s'.requireList v (e.live f) k') := by
  cases v with
  | list address => exact hk address
  | _ => exact h.problem _ e

theorem lists (h : s.Lives f s') : s'.world.store.lists = s.world.store.lists := by
  rw [h.world]
  rfl

theorem vars (h : s.Lives f s') : s'.world.store.vars = s.world.store.vars := by
  rw [h.world]
  rfl

theorem requireIndex {list : Nat} {e : Node Label} {k k' : Nat → Step} (h : s.Lives f s')
    (hk : ∀ i, (k i).Lives f (k' i)) :
    (s.requireIndex list v e k).Lives f (s'.requireIndex list v (e.live f) k') := by
  cases v with
  | integer n =>
    simp only [Situation.requireIndex, h.lists]
    split
    · have problem := Fault.ofInteger_live (f := f) n
        (fun n => .indexRange n (s.world.store.lists[list]?.getD #[]).size) (some e)
      rw [Option.map_some] at problem
      rw [problem]
      exact h.fail _
    · exact hk _
  | _ => exact h.problem _ e

theorem binding (h : s.Lives f s') (label : Label) :
    (s'.annotation (f label)).binding = (s.annotation label).binding :=
  congrArg Annotation.binding (h.program.found label)

theorem resolve {label : Label} {name : Json} {e : Node Label} {k k' : Nat → Variable → Step}
    (h : s.Lives f s') (hk : ∀ n x, (k n x).Lives f (k' n x)) :
    (s.resolve env (s.annotation label).binding name e k).Lives f
      (s'.resolve env (s'.annotation (f label)).binding name (e.live f) k') := by
  have same (id : Option DeclId) :
      s'.world.store.resolve env id name = s.world.store.resolve env id name := by
    rw [h.world]
    rfl
  simp only [Situation.resolve, h.binding, same, h.vars]
  cases s.world.store.resolve env ((s.annotation label).binding.map (·.id)) name with
  | none => exact h.fail (.unfit .notAName)
  | some found =>
    cases found with
    | none => exact h.problem _ e
    | some n =>
      simp only
      cases s.world.store.vars[n]? with
      | none => exact h.problem _ e
      | some x => exact hk n x

theorem execute (h : s.Lives f s') (statements : Node Label) :
    (s.execute statements env).Lives f (s'.execute (statements.live f).cut env) :=
  h.require statements.items_liveBlock fun statements => h.go (.execute statements env)

theorem enter (h : s.Lives f s') (statements : Node Label) :
    (s.enter statements env).Lives f (s'.enter (statements.live f).cut env) := by
  simp only [Situation.enter, h.world]
  exact (h.withWorld (w := (s.world.openBlock env).1)).execute statements

theorem take (h : s.Lives f s') (reason : String) (branch : Node Label) :
    (s.take v reason branch env).Lives f (s'.take v reason (branch.live f) env) := by
  refine h.notingText fun t t' h => ?_
  cases branch with
  | case value statements => exact h.enter statements
  | _ => exact h.fail (.unfit .missingPart)

theorem select (h : s.Lives f s') (default : Option (Node Label)) (cases : List (Node Label)) :
    (s.select v default env cases).Lives f
      (s'.select v (default.map (Node.live f)) env (Node.allLive f cases)) := by
  induction cases generalizing default with
  | nil =>
    cases default with
    | none => exact h.go .ended
    | some branch => exact h.take "default" branch
  | cons branch rest ih =>
    simp only [Situation.select, Node.allLive, Node.content?_live]
    cases branch.content? with
    | none => exact h.fail (.unfit .missingPart)
    | some content =>
      cases content with
      | nothing => exact ih (some branch)
      | node value => exact h.await (.case v default branch rest env) (.evaluate value env)
      | bare value => exact h.fail (.unexpectedNode .evaluate value.className)

theorem invoke (h : s.Lives f s') (name : Json) (arguments : List Value) (e : Node Label) :
    (s.invoke env name arguments e).Lives f (s'.invoke env name arguments (e.live f)) := by
  refine h.require (key_live name) fun key => ?_
  have found : s'.world.store.findFunction env key arguments.length =
      s.world.store.findFunction env key arguments.length := by
    rw [h.world]
    rfl
  simp only [id, found]
  cases s.world.store.findFunction env key arguments.length with
  | none => exact h.problem _ e
  | some n => exact h.go (.call n arguments)

/-- A list is made of values. -/
theorem newList (h : s.Lives f s') (items : Array Value) :
    ((s.withWorld { s.world with store := (s.world.store.newList items).1 }).go
        (.value (.list (s.world.store.newList items).2))).Lives f
      ((s'.withWorld { s'.world with store := (s'.world.store.newList items).1 }).go
        (.value (.list (s'.world.store.newList items).2))) := by
  rw [h.world]
  exact (h.withWorld (w := { s.world with store := (s.world.store.newList items).1 })).go
    (.value (.list (s.world.store.newList items).2))

theorem evaluate (h : s.Lives f s') (e : Node Label) :
    (s.evaluate e env).Lives f (s'.evaluate (e.live f) env) := by
  cases e with
  | literal label value => exact h.go (.value value.value)
  | group label inner => exact h.go (.evaluate inner env)
  | binary label op left right =>
    cases op with
    | and => exact h.await (.test false left right env) (.evaluate left env)
    | or => exact h.await (.test true left right env) (.evaluate left env)
    | _ => exact h.await (.left _ right (.binary label _ left right) env) (.evaluate left env)
  | access label name offset =>
    refine h.resolve (e := .access label name offset) fun n x => ?_
    rw [Node.isAbsent_live]
    split
    · exact h.go (.value x.value)
    · exact h.requireList (e := .access label name offset) fun list =>
        h.await (.index list (.access label name offset)) (.evaluate offset env)
  | call label name arguments =>
    refine h.require arguments.items_live fun items => ?_
    cases items with
    | nil => exact h.invoke name [] (.call label name arguments)
    | cons first rest =>
      exact h.await (.argument name [] rest (.call label name arguments) env) (.evaluate first env)
  | listLiteral label elements =>
    refine h.require elements.items_live fun items => ?_
    cases items with
    | nil => exact h.newList #[]
    | cons first rest => exact h.await (.element [] rest env) (.evaluate first env)
  | _ => exact h.fail (.unexpectedNode .evaluate _)

theorem executeOne (h : s.Lives f s') (statement : Node Label) :
    (s.executeOne statement env).Lives f (s'.executeOne (statement.live f) env) := by
  cases statement with
  | expressionStmt e => exact h.await .discard (.evaluate e env)
  | declaration label name typeName value =>
    simp only [Node.live, Situation.executeOne, Node.isAbsent_live]
    split
    · exact h.await (.declaration label name env) (.value .nil)
    · exact h.await (.declaration label name env) (.evaluate value env)
  | assignment receiver value =>
    cases receiver with
    | access label name offset =>
      exact h.resolve (e := .access label name offset) fun n _ =>
        h.await (.assignment n offset (.access label name offset)
          (.assignment (.access label name offset) value) env) (.evaluate value env)
    | _ => exact h.problem _ (.assignment _ value)
  | conditional condition thenStatements elseStatements =>
    exact h.await (.branch condition thenStatements elseStatements env) (.evaluate condition env)
  | switch condition cases => exact h.await (.subject cases env) (.evaluate condition env)
  | loop condition statements =>
    simp only [Node.live, Situation.executeOne, h.settings, h.world]
    cases s.settings.loops with
    | shared =>
      exact (h.withWorld (w := (s.world.openBlock env).1)).await
        (.condition condition statements (s.world.openBlock env).2)
        (.evaluate condition (s.world.openBlock env).2)
    | perRound =>
      exact h.withWorld.await (.condition condition statements env) (.evaluate condition env)
  | ret value => exact h.await .result (.evaluate value env)
  | _ => exact h.fail (.unexpectedNode .execute _)

/-- Of a block that begins with a `RETURN` nothing else is left. -/
theorem executeAll (h : s.Lives f s') (statements : List (Node Label)) :
    (s.executeAll statements env).Lives f
      (s'.executeAll (Node.liveBlock f statements) env) := by
  cases statements with
  | nil => exact h.go .ended
  | cons first rest =>
    have one : ((s.behind (.rest rest env)).executeOne first env).Lives f
        ((s'.behind (Frame.live f (.rest rest env))).executeOne (first.live f) env) :=
      (h.behind (.rest rest env)).executeOne first
    cases first with
    | ret value =>
      change Step.Lives f _ (.next
        ⟨.evaluate (value.live f) env, .result :: .rest [] env :: s'.frames, s'.calls, s'.world⟩)
      rw [h.calls, h.world]
      exact .next (.here (.dead h.frames))
    | _ => exact one

/-- A function is called: its body runs in a new block, where its parameters are variables. -/
theorem call (h : s.Lives f s') (n : Nat) (arguments : List Value) :
    (s.call n arguments).Lives f (s'.call n arguments) := by
  have known : s'.world.store.functions[n]? =
      s.world.store.functions[n]?.map (Callable.live f) := by
    rw [h.world]
    exact Array.getElem?_map
  simp only [Situation.call, known]
  cases s.world.store.functions[n]? with
  | none => exact h.go (.value .nil)
  | some callee =>
    have texts := liveResult_mapM h.text arguments
    refine h.noting (liveResult_bind texts fun _ => rfl) fun t t' h => ?_
    obtain ⟨name, arity, types, returns, body⟩ := callee
    cases body with
    | print =>
      refine h.require (h.text _) fun text => ?_
      rw [h.world]
      exact (h.withWorld (w := t.world.print text)).go (.value .nil)
    | code parameters statements home =>
      have zipped : (parameters.map (Declared.map f)).zip arguments =
          (parameters.zip arguments).map (Prod.map (Declared.map f) id) := by
        rw [List.zip_map_left]
      simp only [Callable.live, Body.live, h.settings, h.calls, zipped]
      split
      · exact h.fail .tooDeep
      · have bound : ((t.world.openBlock home).1.live f).bind (t.world.openBlock home).2
            t'.program.found ((parameters.zip arguments).map (Prod.map (Declared.map f) id)) = _ :=
          World.bind_live h.program.found (parameters.zip arguments)
        have opened : t'.world.openBlock home =
            ((t.world.openBlock home).1.live f, (t.world.openBlock home).2) := by
          rw [h.world]
          rfl
        simp only [opened, bound]
        obtain ⟨w, fault⟩ := (t.world.openBlock home).1.bind (t.world.openBlock home).2
          t.program.found (parameters.zip arguments)
        cases fault with
        | some e => exact .halt
        | none =>
          have inside : Situation.Lives f { t with world := w, calls := t.calls + 1 }
              { t' with world := w.live f, calls := t.calls + 1 } :=
            ⟨h.settings, h.program, h.frames, rfl, rfl⟩
          exact (inside.behind (.activation n)).execute statements

theorem global (h : s.Lives f s') (g functions : Node Label) (rest : List (Node Label)) :
    (s.global g rest functions env).Lives f
      (s'.global (g.live f) (Node.allLive f rest) (functions.live f) env) := by
  simp only [Situation.global, Node.content?_live]
  cases g.content? with
  | none => exact h.fail (.unfit .missingPart)
  | some content =>
    cases content with
    | nothing => exact h.await (.global g rest functions env) (.value .nil)
    | node value => exact h.await (.global g rest functions env) (.evaluate value env)
    | bare value => exact h.fail (.unexpectedNode .evaluate value.className)

/-- A function of the program is defined, or its name is taken. -/
theorem defineFunction (h : s.Lives f s') (function : Node Label) (rest : List (Node Label)) :
    (s.defineFunction function rest env).Lives f
      (s'.defineFunction (function.live f) (Node.allLive f rest) env) := by
  cases function with
  | function label name parameters returnTypeName statements =>
    have header : (do
        let header ← ((Node.function label name parameters returnTypeName statements).live
          f).headerTypes (← (parameters.live f).items)
        return (header, ← resolveOptional returnTypeName
          ((Node.function label name parameters returnTypeName statements).live f),
          ← name.key)) =
        liveResult f (Prod.map (List.map (Prod.map (Declared.map f) id)) id) (do
          let header ← (Node.function label name parameters returnTypeName statements).headerTypes
            (← parameters.items)
          return (header, ← resolveOptional returnTypeName
            (Node.function label name parameters returnTypeName statements), ← name.key)) :=
      liveResult_bind parameters.items_live fun items =>
        liveResult_bind (headerTypes_live _ items) fun header =>
          liveResult_bind (resolveOptional_live ..) fun returns =>
            liveResult_bind (key_live name) fun key => rfl
    refine h.require header fun (header, returns, key) => ?_
    have types : (header.map (Prod.map (Declared.map f) id)).map (·.2) = header.map (·.2) := by
      rw [List.map_map]
      rfl
    have named : (header.map (Prod.map (Declared.map f) id)).map (·.1) =
        (header.map (·.1)).map (Declared.map f) := by
      rw [List.map_map, List.map_map]
      rfl
    have defined (c : Callable) : s'.world.store.defineFunction env key (c.live f) =
        (s.world.store.defineFunction env key c).map (Prod.map (Store.live f) id) := by
      rw [h.world]
      exact Store.defineFunction_live c
    have callable : Callable.live f ⟨name, header.length, header.map (·.2), returns,
        .code (header.map (·.1)) statements env⟩ = ⟨name, header.length, header.map (·.2), returns,
          .code ((header.map (·.1)).map (Declared.map f)) (statements.live f).cut env⟩ := rfl
    simp only [Prod.map, id, types, named, List.length_map]
    rw [← callable, defined]
    cases s.world.store.defineFunction env key ⟨name, header.length, header.map (·.2), returns,
        .code (header.map (·.1)) statements env⟩ with
    | none => exact h.problem _ (.function label name parameters returnTypeName statements)
    | some made =>
      obtain ⟨store, n⟩ := made
      simp only [Option.map_some, Prod.map, h.world]
      exact (h.withWorld (w := { s.world with store := store })).noting rfl fun t t' h =>
        h.go (.functions rest env)
  | _ => exact h.fail (.unfit .missingPart)

theorem start (h : s.Lives f s') : (s.start env).Lives f (s'.start env) := by
  unfold Situation.start
  rw [h.program.tree]
  cases s.program.tree with
  | source globals functions =>
    exact h.require globals.items_live fun globals => h.go (.globals globals functions env)
  | _ => exact h.fail (.unfit .missingPart)

/-- A global has its value. -/
theorem resumeGlobal (h : s.Lives f s') (g functions : Node Label) (rest : List (Node Label)) :
    (s.resume v (.global g rest functions env)).Lives f
      (s'.resume v (Frame.live f (.global g rest functions env))) := by
  cases g with
  | global label name isMutable typeName value =>
    have added : s'.world.addFree env name (s'.annotation (f label)).binding isMutable v
        (Node.live f (.global label name isMutable typeName value)) =
        liveResult f (World.live f) (s.world.addFree env name (s.annotation label).binding
          isMutable v (Node.global label name isMutable typeName value)) := by
      rw [h.binding, h.world]
      exact World.addFree_live name _ isMutable (some _)
    refine h.require added fun w => h.withWorld.notingText fun t t' h => ?_
    exact h.go (.globals rest functions env)
  | _ => exact h.fail (.unfit .missingPart)

/-- A variable is declared. -/
theorem resumeDeclaration (h : s.Lives f s') (label : Label) (name : Json) :
    (s.resume v (.declaration label name env)).Lives f
      (s'.resume v (Frame.live f (.declaration label name env))) := by
  refine h.require (key_live name) fun key => ?_
  rw [h.binding, h.world]
  exact (h.withWorld (w := s.world.add env key name (s.annotation label).binding true
    v)).notingText fun t t' h => h.go .ended

theorem resumeAssignment (h : s.Lives f s') (n : Nat) (offset receiver node : Node Label) :
    (s.resume v (.assignment n offset receiver node env)).Lives f
      (s'.resume v (Frame.live f (.assignment n offset receiver node env))) := by
  simp only [Frame.live, Situation.resume, h.vars, Node.isAbsent_live]
  cases s.world.store.vars[n]? with
  | none => exact h.go .ended
  | some x =>
    simp only
    split
    · exact h.problem _ node
    · split
      · rw [h.world]
        exact (h.withWorld (w := { s.world with store := s.world.store.setValue n v })).go .ended
      · exact h.requireList fun list => h.await (.target list v receiver) (.evaluate offset env)

theorem resumeCondition (h : s.Lives f s') (condition statements : Node Label) :
    (s.resume v (.condition condition statements env)).Lives f
      (s'.resume v (Frame.live f (.condition condition statements env))) := by
  refine h.requireBoolean fun b => h.notingText fun t t' h => ?_
  cases b with
  | false => exact h.go .ended
  | true =>
    simp only [↓reduceIte, h.settings, h.world]
    cases t.settings.loops with
    | shared => exact (h.withWorld.behind (.round condition statements env)).execute statements
    | perRound =>
      exact ((h.withWorld (w := (t.world.openBlock env).1)).behind
        (.round condition statements env)).execute statements

/-- Left by a call. -/
theorem leaveCall (h : s.Lives f s') (v : Value) :
    ({ s with calls := s.calls - 1 }.go (.value v)).Lives f
      ({ s' with calls := s'.calls - 1 }.go (.value v)) := by
  have outside : Situation.Lives f { s with calls := s.calls - 1 }
      { s' with calls := s'.calls - 1 } :=
    ⟨h.settings, h.program, h.frames, congrArg (· - 1) h.calls, h.world⟩
  exact outside.go (.value v)

theorem resume (h : s.Lives f s') (frame : Frame) :
    (s.resume v frame).Lives f (s'.resume v (frame.live f)) := by
  cases frame with
  | global g rest functions env => exact h.resumeGlobal g functions rest
  | left op right node env => exact h.await (.right op v node) (.evaluate right env)
  | right op left node =>
    refine h.require ?_ fun v => h.go (.value v)
    rw [h.lists, h.settings]
    exact Lists.apply_live _ _ op left v (some node)
  | test decisive left right env =>
    refine h.requireBoolean fun b => ?_
    split
    · exact h.go (.value (.boolean b))
    · exact h.await (.boolean right) (.evaluate right env)
  | boolean e => exact h.requireBoolean fun b => h.go (.value (.boolean b))
  | index list node =>
    simp only [Frame.live, Situation.resume]
    refine h.requireIndex fun i => ?_
    rw [h.lists]
    exact h.go (.value _)
  | argument name done rest node env =>
    cases rest with
    | nil => exact h.invoke name _ node
    | cons e rest => exact h.await (.argument name (v :: done) rest node env) (.evaluate e env)
  | element done rest env =>
    cases rest with
    | nil => exact h.newList _
    | cons e rest => exact h.await (.element (v :: done) rest env) (.evaluate e env)
  | discard => exact h.go .ended
  | declaration label name env => exact h.resumeDeclaration label name
  | assignment n offset receiver node env => exact h.resumeAssignment n offset receiver node
  | target list value receiver =>
    simp only [Frame.live, Situation.resume]
    refine h.requireIndex fun i => ?_
    rw [h.world]
    exact (h.withWorld (w := { s.world with
      store := s.world.store.setElement list i value })).go .ended
  | branch condition thenStatements elseStatements env =>
    refine h.requireBoolean fun b => h.notingText fun t t' h => ?_
    cases b with
    | false => exact h.enter elseStatements
    | true => exact h.enter thenStatements
  | subject cases env =>
    exact h.require cases.items_live fun cases => h.select none cases
  | case subject default branch rest env =>
    have equal : s'.world.store.lists.equal s'.settings.depth v subject =
        liveResult f id (s.world.store.lists.equal s.settings.depth v subject) := by
      rw [h.lists, h.settings]
      exact liveResult_id_of (Lists.equal_at ..)
    refine h.require equal fun same => ?_
    cases same with
    | true => exact h.take "case" branch
    | false => exact h.select default rest
  | condition condition statements env => exact h.resumeCondition condition statements
  | round e statements env => exact h.go (.value v)
  | rest statements env => exact h.go (.value v)
  | result => exact h.go (.leave v)
  | activation n => exact h.leaveCall v

theorem proceed (h : s.Lives f s') (frame : Frame) :
    (s.proceed frame).Lives f (s'.proceed (frame.live f)) := by
  cases frame with
  | activation n => exact h.leaveCall .nil
  | round condition statements env =>
    exact h.await (.condition condition statements env) (.evaluate condition env)
  | rest statements env => exact h.go (.execute statements env)
  | _ => exact h.go .ended

theorem unwind (h : s.Lives f s') (frame : Frame) :
    (s.unwind v frame).Lives f (s'.unwind v (frame.live f)) := by
  cases frame with
  | activation n => exact h.leaveCall v
  | _ => exact h.go (.leave v)

end Situation.Lives

end PlcLang
