import PlcLang.Machine.Step
import PlcLang.Proofs.Relocation.Store
import PlcLang.Proofs.Relocation.Types

namespace PlcLang

/-! What a machine does next, with other identities. -/

def Control.relocate (r : Relocation) : Control → Control
  | .start env => .start (env.relocate r)
  | .globals others code env =>
    .globals (Node.mapAll r.label others) (code.map r.label) (env.relocate r)
  | .functions others env => .functions (Node.mapAll r.label others) (env.relocate r)
  | .main env => .main (env.relocate r)
  | .evaluate e env => .evaluate (e.map r.label) (env.relocate r)
  | .execute statements env => .execute (Node.mapAll r.label statements) (env.relocate r)
  | .call n arguments => .call (r.base.functions.size + n) (arguments.map (Value.relocate r))
  | .value v => .value (v.relocate r)
  | .ended => .ended
  | .leave v => .leave (v.relocate r)

def Frame.relocate (r : Relocation) : Frame → Frame
  | .global g others code env =>
    .global (g.map r.label) (Node.mapAll r.label others) (code.map r.label) (env.relocate r)
  | .left op second node env =>
    .left op (second.map r.label) (node.map r.label) (env.relocate r)
  | .right op v node => .right op (v.relocate r) (node.map r.label)
  | .test decisive first second env =>
    .test decisive (first.map r.label) (second.map r.label) (env.relocate r)
  | .boolean e => .boolean (e.map r.label)
  | .index list node => .index (r.base.lists.size + list) (node.map r.label)
  | .argument name done others node env =>
    .argument name (done.map (Value.relocate r)) (Node.mapAll r.label others) (node.map r.label)
      (env.relocate r)
  | .element done others env =>
    .element (done.map (Value.relocate r)) (Node.mapAll r.label others) (env.relocate r)
  | .discard => .discard
  | .declaration label name env => .declaration (r.label label) name (env.relocate r)
  | .assignment n offset receiver node env =>
    .assignment (r.base.vars.size + n) (offset.map r.label) (receiver.map r.label)
      (node.map r.label) (env.relocate r)
  | .target list v receiver =>
    .target (r.base.lists.size + list) (v.relocate r) (receiver.map r.label)
  | .branch e thenStatements elseStatements env =>
    .branch (e.map r.label) (thenStatements.map r.label) (elseStatements.map r.label)
      (env.relocate r)
  | .subject cases env => .subject (cases.map r.label) (env.relocate r)
  | .case v default this others env =>
    .case (v.relocate r) (default.map (Node.map r.label)) (this.map r.label)
      (Node.mapAll r.label others) (env.relocate r)
  | .condition e statements env =>
    .condition (e.map r.label) (statements.map r.label) (env.relocate r)
  | .round e statements env => .round (e.map r.label) (statements.map r.label) (env.relocate r)
  | .rest statements env => .rest (Node.mapAll r.label statements) (env.relocate r)
  | .result => .result
  | .activation n => .activation (r.base.functions.size + n)

def Machine.relocate (r : Relocation) (m : Machine) : Machine :=
  ⟨m.control.relocate r, m.frames.map (Frame.relocate r), m.calls, m.world.relocate r⟩

def Step.relocate (r : Relocation) : Step → Step
  | .next m => .next (m.relocate r)
  | .halt w result => .halt (w.relocate r) (r.result (Value.relocate r) result)

/-- The second program is the first with other identities. -/
structure Relocation.Carries (r : Relocation) (p p' : Annotated) : Prop where
  tree : p'.tree = p.tree.map r.label
  binds : r.Binds p.found p'.found

/-- The rules see the second machine as they see the first, with other identities. -/
structure Situation.Relocates (r : Relocation) (s s' : Situation) : Prop where
  settings : s'.settings = s.settings
  program : r.Carries s.program s'.program
  frames : s'.frames = s.frames.map (Frame.relocate r)
  calls : s'.calls = s.calls
  world : s'.world = s.world.relocate r

namespace Situation.Relocates

variable {r : Relocation} {s s' : Situation} {env : Env} {v : Value} {w : World}

theorem withWorld (h : s.Relocates r s') :
    (s.withWorld w).Relocates r (s'.withWorld (w.relocate r)) :=
  ⟨h.settings, h.program, h.frames, h.calls, rfl⟩

theorem behind (h : s.Relocates r s') (frame : Frame) :
    (s.behind frame).Relocates r (s'.behind (frame.relocate r)) :=
  ⟨h.settings, h.program, by simp only [Situation.behind, h.frames, List.map_cons], h.calls,
    h.world⟩

theorem fail (h : s.Relocates r s') (f : Fault) :
    s'.fail (f.relocate r) = (s.fail f).relocate r := by
  simp only [Situation.fail, h.world]
  rfl

theorem problem (h : s.Relocates r s') (cause : Cause) (subject : Node Label) :
    s'.problem cause (subject.map r.label) = (s.problem cause subject).relocate r :=
  h.fail (.ofCause cause subject)

theorem go (h : s.Relocates r s') (control : Control) :
    s'.go (control.relocate r) = (s.go control).relocate r := by
  simp only [Situation.go, h.frames, h.calls, h.world]
  rfl

theorem await (h : s.Relocates r s') (frame : Frame) (control : Control) :
    s'.await (frame.relocate r) (control.relocate r) = (s.await frame control).relocate r := by
  simp only [Situation.await, h.frames, h.calls, h.world]
  rfl

theorem require {α β : Type} {g : α → β} {x : Except Fault α} {x' : Except Fault β}
    {k : α → Step} {k' : β → Step} (h : s.Relocates r s') (hx : x' = r.result g x)
    (hk : ∀ a, k' (g a) = (k a).relocate r) :
    s'.require x' k' = (s.require x k).relocate r := by
  subst hx
  cases x with
  | ok a => exact hk a
  | error f => exact h.fail f

theorem noting {level : Nat} {n n' : World → Except Fault Note} {k k' : Situation → Step}
    (h : s.Relocates r s') (hn : n' s'.world = r.result id (n s.world))
    (hk : ∀ t t' : Situation, t.Relocates r t' → k' t' = (k t).relocate r) :
    s'.noting level n' k' = (s.noting level n k).relocate r := by
  unfold Situation.noting
  rw [h.settings]
  split
  · exact hk _ _ h
  · refine h.require hn fun note => hk _ _ ?_
    rw [h.world]
    exact h.withWorld

theorem text (h : s.Relocates r s') (v : Value) :
    s'.world.text s'.settings (v.relocate r) = r.result id (s.world.text s.settings v) := by
  rw [h.world, h.settings]
  exact World.text_relocate ..

theorem notingText {level : Nat} {n : String → Note} {k k' : Situation → Step}
    (h : s.Relocates r s')
    (hk : ∀ t t' : Situation, t.Relocates r t' → k' t' = (k t).relocate r) :
    s'.notingText level (v.relocate r) n k' = (s.notingText level v n k).relocate r :=
  h.noting (Relocation.result_map (h.text v) fun _ => rfl) hk

theorem requireBoolean {e : Node Label} {k k' : Bool → Step} (h : s.Relocates r s')
    (hk : ∀ b, k' b = (k b).relocate r) :
    s'.requireBoolean (v.relocate r) (e.map r.label) k' =
      (s.requireBoolean v e k).relocate r := by
  cases v with
  | boolean b => exact hk b
  | _ => exact h.problem _ e

theorem requireList {e : Node Label} {k k' : Nat → Step} (h : s.Relocates r s')
    (hk : ∀ list, k' (r.base.lists.size + list) = (k list).relocate r) :
    s'.requireList (v.relocate r) (e.map r.label) k' = (s.requireList v e k).relocate r := by
  cases v with
  | list address => exact hk address
  | _ => exact h.problem _ e

theorem list (h : s.Relocates r s') (address : Nat) :
    s'.world.store.lists[r.base.lists.size + address]?.getD #[] =
      (s.world.store.lists[address]?.getD #[]).map (Value.relocate r) := by
  rw [h.world]
  simp only [World.relocate, Store.relocate, Lists.relocate, getElem?_behind]
  cases s.world.store.lists[address]? with
  | none => exact Array.map_empty.symm
  | some items => rfl

theorem requireIndex {list : Nat} {e : Node Label} {k k' : Nat → Step} (h : s.Relocates r s')
    (hk : ∀ i, k' i = (k i).relocate r) :
    s'.requireIndex (r.base.lists.size + list) (v.relocate r) (e.map r.label) k' =
      (s.requireIndex list v e k).relocate r := by
  cases v with
  | integer n =>
    simp only [Value.relocate, Situation.requireIndex, h.list, Array.size_map]
    split
    · rw [← h.fail, Fault.ofInteger_relocate]
      rfl
    · exact hk _
  | _ => exact h.problem _ e

/-- Both know of a node what the checker found of its variable. -/
theorem binding (h : s.Relocates r s') (label : Label) :
    (s'.annotation (r.label label)).binding =
      (s.annotation label).binding.map (Binding.relocate r) :=
  h.program.binds label

theorem resolve {label : Label} {name : Json} {e : Node Label} {k k' : Nat → Variable → Step}
    (h : s.Relocates r s')
    (hk : ∀ n x, k' (r.base.vars.size + n) (x.relocate r) = (k n x).relocate r) :
    s'.resolve (env.relocate r) (s'.annotation (r.label label)).binding name (e.map r.label) k' =
      (s.resolve env (s.annotation label).binding name e k).relocate r := by
  have world : s'.world.store = s.world.store.relocate r := by rw [h.world]; rfl
  simp only [Situation.resolve, h.binding, world, Store.resolve_relocate]
  cases s.world.store.resolve env ((s.annotation label).binding.map (·.id)) name with
  | none => exact h.fail (.unfit .notAName)
  | some found =>
    cases found with
    | none => exact h.problem _ e
    | some n =>
      simp only [Option.map_some, Store.relocate, getElem?_behind]
      cases s.world.store.vars[n]? with
      | none => exact h.problem _ e
      | some x => exact hk n x

theorem execute (h : s.Relocates r s') (statements : Node Label) :
    s'.execute (statements.map r.label) (env.relocate r) =
      (s.execute statements env).relocate r :=
  h.require (statements.items_map r) fun statements => h.go (.execute statements env)

theorem enter (h : s.Relocates r s') (statements : Node Label) :
    s'.enter (statements.map r.label) (env.relocate r) = (s.enter statements env).relocate r := by
  simp only [Situation.enter, h.world, World.openBlock_relocate]
  exact h.withWorld.execute statements

theorem take (h : s.Relocates r s') (reason : String) (branch : Node Label) :
    s'.take (v.relocate r) reason (branch.map r.label) (env.relocate r) =
      (s.take v reason branch env).relocate r := by
  refine h.notingText fun t t' h => ?_
  cases branch with
  | case value statements => exact h.enter statements
  | _ => exact h.fail (.unfit .missingPart)

theorem select (h : s.Relocates r s') (default : Option (Node Label)) (cases : List (Node Label)) :
    s'.select (v.relocate r) (default.map (Node.map r.label)) (env.relocate r)
        (Node.mapAll r.label cases) = (s.select v default env cases).relocate r := by
  induction cases generalizing default with
  | nil =>
    cases default with
    | none => exact h.go .ended
    | some branch => exact h.take "default" branch
  | cons branch rest ih =>
    simp only [Situation.select, Node.mapAll, Node.content?_map]
    cases branch.content? with
    | none => exact h.fail (.unfit .missingPart)
    | some content =>
      cases content with
      | nothing => exact ih (some branch)
      | node value => exact h.await (.case v default branch rest env) (.evaluate value env)
      | bare value => exact h.fail (.unexpectedNode .evaluate value.className)

theorem invoke (h : s.Relocates r s') (name : Json) (arguments : List Value) (e : Node Label) :
    s'.invoke (env.relocate r) name (arguments.map (Value.relocate r)) (e.map r.label) =
      (s.invoke env name arguments e).relocate r := by
  refine h.require (key_relocate name) fun key => ?_
  have found : s'.world.store.findFunction (env.relocate r) key arguments.length =
      (s.world.store.findFunction env key arguments.length).map (r.base.functions.size + ·) := by
    rw [h.world]
    exact Store.findFunction_relocate ..
  simp only [id, List.length_map, found]
  cases s.world.store.findFunction env key arguments.length with
  | none => exact h.problem _ e
  | some n => exact h.go (.call n arguments)

/-- A list is made of values. -/
theorem newList (h : s.Relocates r s') (items : Array Value) :
    (s'.withWorld { s'.world with
        store := (s'.world.store.newList (items.map (Value.relocate r))).1 }).go
        (.value (.list (s'.world.store.newList (items.map (Value.relocate r))).2)) =
      ((s.withWorld { s.world with store := (s.world.store.newList items).1 }).go
        (.value (.list (s.world.store.newList items).2))).relocate r := by
  simp only [h.world, World.relocate, Store.newList_relocate]
  exact (h.withWorld (w := { s.world with store := (s.world.store.newList items).1 })).go
    (.value (.list (s.world.store.newList items).2))

theorem evaluate (h : s.Relocates r s') (e : Node Label) :
    s'.evaluate (e.map r.label) (env.relocate r) = (s.evaluate e env).relocate r := by
  cases e with
  | literal label value =>
    have plain : value.value.relocate r = value.value := by cases value <;> rfl
    have next := h.go (.value value.value)
    rw [Control.relocate, plain] at next
    exact next
  | group label inner => exact h.go (.evaluate inner env)
  | binary label op left right =>
    cases op with
    | and => exact h.await (.test false left right env) (.evaluate left env)
    | or => exact h.await (.test true left right env) (.evaluate left env)
    | _ => exact h.await (.left _ right (.binary label _ left right) env) (.evaluate left env)
  | access label name offset =>
    refine h.resolve (e := .access label name offset) fun n x => ?_
    rw [Node.isAbsent_map]
    split
    · exact h.go (.value x.value)
    · exact h.requireList (e := .access label name offset) fun list =>
        h.await (.index list (.access label name offset)) (.evaluate offset env)
  | call label name arguments =>
    refine h.require (arguments.items_map r) fun items => ?_
    cases items with
    | nil => exact h.invoke name [] (.call label name arguments)
    | cons first rest =>
      exact h.await (.argument name [] rest (.call label name arguments) env) (.evaluate first env)
  | listLiteral label elements =>
    refine h.require (elements.items_map r) fun items => ?_
    cases items with
    | nil =>
      have next := h.newList #[]
      rw [Array.map_empty] at next
      exact next
    | cons first rest => exact h.await (.element [] rest env) (.evaluate first env)
  | _ => exact h.fail (.unexpectedNode .evaluate _)

theorem executeOne (h : s.Relocates r s') (statement : Node Label) :
    s'.executeOne (statement.map r.label) (env.relocate r) =
      (s.executeOne statement env).relocate r := by
  cases statement with
  | expressionStmt e => exact h.await .discard (.evaluate e env)
  | declaration label name typeName value =>
    simp only [Node.map, Situation.executeOne, Node.isAbsent_map]
    split
    · exact h.await (.declaration label name env) (.value .nil)
    · exact h.await (.declaration label name env) (.evaluate value env)
  | assignment receiver value =>
    cases receiver with
    | access label name offset =>
      exact h.resolve (e := .access label name offset) fun n _ =>
        h.await (.assignment n offset (.access label name offset)
          (.assignment (.access label name offset) value) env) (.evaluate value env)
    | _ => exact h.problem _ (.assignment _ value)
  | conditional condition thenStatements elseStatements =>
    exact h.await (.branch condition thenStatements elseStatements env) (.evaluate condition env)
  | switch condition cases => exact h.await (.subject cases env) (.evaluate condition env)
  | loop condition statements =>
    simp only [Node.map, Situation.executeOne, h.settings]
    cases s.settings.loops with
    | shared =>
      simp only [h.world, World.openBlock_relocate]
      exact h.withWorld.await (.condition condition statements (s.world.openBlock env).2)
        (.evaluate condition (s.world.openBlock env).2)
    | perRound =>
      simp only [h.world]
      exact h.withWorld.await (.condition condition statements env) (.evaluate condition env)
  | ret value => exact h.await .result (.evaluate value env)
  | _ => exact h.fail (.unexpectedNode .execute _)

theorem executeAll (h : s.Relocates r s') (statements : List (Node Label)) :
    s'.executeAll (Node.mapAll r.label statements) (env.relocate r) =
      (s.executeAll statements env).relocate r := by
  cases statements with
  | nil => exact h.go .ended
  | cons first rest => exact (h.behind (.rest rest env)).executeOne first

/-- A function is called: its body runs in a new block, where its parameters are variables. -/
theorem call (h : s.Relocates r s') (n : Nat) (arguments : List Value) :
    s'.call (r.base.functions.size + n) (arguments.map (Value.relocate r)) =
      (s.call n arguments).relocate r := by
  have known : s'.world.store.functions[r.base.functions.size + n]? =
      s.world.store.functions[n]?.map (Callable.relocate r) := by
    rw [h.world]
    exact getElem?_behind ..
  simp only [Situation.call, known]
  cases s.world.store.functions[n]? with
  | none => exact h.go (.value .nil)
  | some f =>
    have texts : (arguments.map (Value.relocate r)).mapM (s'.world.text s'.settings) =
        r.result id (arguments.mapM (s.world.text s.settings)) :=
      Relocation.result_mapM h.text arguments
    refine h.noting (Relocation.result_map texts fun _ => rfl) fun t t' h => ?_
    obtain ⟨name, arity, types, returns, body⟩ := f
    cases body with
    | print =>
      have text : t'.world.text t'.settings ((arguments.map (Value.relocate r)).headD .nil) =
          r.result id (t.world.text t.settings (arguments.headD .nil)) := by
        cases arguments with
        | nil => exact h.text .nil
        | cons a rest => exact h.text a
      refine h.require text fun text => ?_
      rw [h.world]
      exact (h.withWorld (w := t.world.print text)).go (.value .nil)
    | code parameters statements home =>
      have zipped : (parameters.map (Declared.map r.label)).zip (arguments.map (Value.relocate r)) =
          (parameters.zip arguments).map (Prod.map (Declared.map r.label) (Value.relocate r)) :=
        List.zip_map ..
      simp only [Callable.relocate, Body.relocate, h.settings, h.calls, h.world,
        World.openBlock_relocate, zipped, World.bind_relocate h.program.binds]
      split
      · exact h.fail .tooDeep
      · obtain ⟨w, fault⟩ := (t.world.openBlock home).1.bind (t.world.openBlock home).2
          t.program.found (parameters.zip arguments)
        cases fault with
        | some f => rfl
        | none =>
          have inside : Situation.Relocates r { t with world := w, calls := t.calls + 1 }
              { t' with world := w.relocate r, calls := t.calls + 1 } :=
            ⟨h.settings, h.program, h.frames, rfl, rfl⟩
          exact (inside.behind (.activation n)).execute statements

theorem global (h : s.Relocates r s') (g functions : Node Label) (rest : List (Node Label)) :
    s'.global (g.map r.label) (Node.mapAll r.label rest) (functions.map r.label)
      (env.relocate r) = (s.global g rest functions env).relocate r := by
  simp only [Situation.global, Node.content?_map]
  cases g.content? with
  | none => exact h.fail (.unfit .missingPart)
  | some content =>
    cases content with
    | nothing => exact h.await (.global g rest functions env) (.value .nil)
    | node value => exact h.await (.global g rest functions env) (.evaluate value env)
    | bare value => exact h.fail (.unexpectedNode .evaluate value.className)

/-- A function of the program is defined, or its name is taken. -/
theorem defineFunction (h : s.Relocates r s') (f : Node Label) (rest : List (Node Label)) :
    s'.defineFunction (f.map r.label) (Node.mapAll r.label rest) (env.relocate r) =
      (s.defineFunction f rest env).relocate r := by
  cases f with
  | function label name parameters returnTypeName statements =>
    have header : (do
        let header ← ((Node.function label name parameters returnTypeName statements).map
          r.label).headerTypes (← (parameters.map r.label).items)
        return (header, ← resolveOptional returnTypeName
          ((Node.function label name parameters returnTypeName statements).map r.label),
          ← name.key)) =
        r.result (Prod.map (List.map (Prod.map (Declared.map r.label) id)) id) (do
          let header ← (Node.function label name parameters returnTypeName statements).headerTypes
            (← parameters.items)
          return (header, ← resolveOptional returnTypeName
            (Node.function label name parameters returnTypeName statements), ← name.key)) :=
      Relocation.result_bind (parameters.items_map r) fun items =>
        Relocation.result_bind (headerTypes_relocate _ items) fun header =>
          Relocation.result_bind (resolveOptional_relocate ..) fun returns =>
            Relocation.result_bind (key_relocate name) fun key => rfl
    refine h.require header fun (header, returns, key) => ?_
    have types : (header.map (Prod.map (Declared.map r.label) id)).map (·.2) =
        header.map (·.2) := by
      rw [List.map_map]
      rfl
    have named : (header.map (Prod.map (Declared.map r.label) id)).map (·.1) =
        (header.map (·.1)).map (Declared.map r.label) := by
      rw [List.map_map, List.map_map]
      rfl
    have defined (f : Callable) :
        s'.world.store.defineFunction (env.relocate r) key (f.relocate r) =
          (s.world.store.defineFunction env key f).map
            (Prod.map (Store.relocate r) (r.base.functions.size + ·)) := by
      rw [h.world]
      exact Store.defineFunction_relocate f
    have callable : Callable.relocate r ⟨name, header.length, header.map (·.2), returns,
        .code (header.map (·.1)) statements env⟩ = ⟨name, header.length, header.map (·.2), returns,
          .code ((header.map (·.1)).map (Declared.map r.label)) (statements.map r.label)
            (env.relocate r)⟩ := rfl
    simp only [Prod.map, id, types, named, List.length_map]
    rw [← callable, defined]
    cases s.world.store.defineFunction env key ⟨name, header.length, header.map (·.2), returns,
        .code (header.map (·.1)) statements env⟩ with
    | none => exact h.problem _ (.function label name parameters returnTypeName statements)
    | some made =>
      obtain ⟨store, n⟩ := made
      simp only [Option.map_some, Prod.map, h.world]
      exact (h.withWorld (w := { s.world with store := store })).noting rfl fun t t' h =>
        h.go (.functions rest env)
  | _ => exact h.fail (.unfit .missingPart)

theorem start (h : s.Relocates r s') : s'.start (env.relocate r) = (s.start env).relocate r := by
  unfold Situation.start
  rw [h.program.tree]
  cases s.program.tree with
  | source globals functions =>
    exact h.require (globals.items_map r) fun globals => h.go (.globals globals functions env)
  | _ => exact h.fail (.unfit .missingPart)

/-- A global has its value. -/
theorem resumeGlobal (h : s.Relocates r s') (g functions : Node Label)
    (rest : List (Node Label)) :
    s'.resume (v.relocate r) (Frame.relocate r (.global g rest functions env)) =
      (s.resume v (.global g rest functions env)).relocate r := by
  cases g with
  | global label name isMutable typeName value =>
    have added : s'.world.addFree (env.relocate r) name
        (s'.annotation (r.label label)).binding isMutable (v.relocate r)
        (Node.map r.label (.global label name isMutable typeName value)) =
        r.result (World.relocate r) (s.world.addFree env name (s.annotation label).binding
          isMutable v (Node.global label name isMutable typeName value)) := by
      rw [h.binding, h.world]
      exact World.addFree_relocate name _ isMutable (some _)
    refine h.require added fun w => h.withWorld.notingText fun t t' h => ?_
    exact h.go (.globals rest functions env)
  | _ => exact h.fail (.unfit .missingPart)

/-- A variable is declared. -/
theorem resumeDeclaration (h : s.Relocates r s') (label : Label) (name : Json) :
    s'.resume (v.relocate r) (Frame.relocate r (.declaration label name env)) =
      (s.resume v (.declaration label name env)).relocate r := by
  refine h.require (key_relocate name) fun key => ?_
  rw [h.binding, h.world, id, World.add_relocate]
  exact h.withWorld.notingText fun t t' h => h.go .ended

theorem resumeAssignment (h : s.Relocates r s') (n : Nat) (offset receiver node : Node Label) :
    s'.resume (v.relocate r) (Frame.relocate r (.assignment n offset receiver node env)) =
      (s.resume v (.assignment n offset receiver node env)).relocate r := by
  have held : s'.world.store.vars[r.base.vars.size + n]? =
      s.world.store.vars[n]?.map (Variable.relocate r) := by
    rw [h.world]
    exact getElem?_behind ..
  simp only [Frame.relocate, Situation.resume, held, Node.isAbsent_map]
  cases s.world.store.vars[n]? with
  | none => exact h.go .ended
  | some x =>
    simp only [Option.map_some, Variable.relocate]
    split
    · exact h.problem _ node
    · split
      · rw [h.world]
        simp only [World.relocate, Store.setValue_relocate]
        exact (h.withWorld (w := { s.world with store := s.world.store.setValue n v })).go .ended
      · exact h.requireList fun list => h.await (.target list v receiver) (.evaluate offset env)

theorem resumeCondition (h : s.Relocates r s') (condition statements : Node Label) :
    s'.resume (v.relocate r) (Frame.relocate r (.condition condition statements env)) =
      (s.resume v (.condition condition statements env)).relocate r := by
  refine h.requireBoolean fun b => h.notingText fun t t' h => ?_
  cases b with
  | false => exact h.go .ended
  | true =>
    simp only [↓reduceIte, h.settings]
    cases t.settings.loops with
    | shared =>
      simp only [h.world]
      exact (h.withWorld.behind (.round condition statements env)).execute statements
    | perRound =>
      simp only [h.world, World.openBlock_relocate]
      exact (h.withWorld.behind (.round condition statements env)).execute statements

/-- Left by a call. -/
theorem leaveCall (h : s.Relocates r s') (v : Value) :
    { s' with calls := s'.calls - 1 }.go (.value (v.relocate r)) =
      ({ s with calls := s.calls - 1 }.go (.value v)).relocate r := by
  have outside : Situation.Relocates r { s with calls := s.calls - 1 }
      { s' with calls := s'.calls - 1 } :=
    ⟨h.settings, h.program, h.frames, congrArg (· - 1) h.calls, h.world⟩
  exact outside.go (.value v)

theorem resume (h : s.Relocates r s') (frame : Frame) :
    s'.resume (v.relocate r) (frame.relocate r) = (s.resume v frame).relocate r := by
  cases frame with
  | global g rest functions env => exact h.resumeGlobal g functions rest
  | left op right node env => exact h.await (.right op v node) (.evaluate right env)
  | right op left node =>
    have applied : s'.world.store.lists.apply s'.settings.depth op (left.relocate r)
        (v.relocate r) (node.map r.label) = r.result (Value.relocate r)
          (s.world.store.lists.apply s.settings.depth op left v node) := by
      rw [h.world, h.settings]
      exact Lists.apply_relocate op left v (some node) _
    exact h.require applied fun v => h.go (.value v)
  | test decisive left right env =>
    refine h.requireBoolean fun b => ?_
    split
    · exact h.go (.value (.boolean b))
    · exact h.await (.boolean right) (.evaluate right env)
  | boolean e => exact h.requireBoolean fun b => h.go (.value (.boolean b))
  | index list node =>
    simp only [Frame.relocate, Situation.resume]
    refine h.requireIndex fun i => ?_
    have element : ((s.world.store.lists[list]?.getD #[]).map (Value.relocate r))[i]?.getD .nil =
        ((s.world.store.lists[list]?.getD #[])[i]?.getD .nil).relocate r := by
      rw [Array.getElem?_map]
      cases (s.world.store.lists[list]?.getD #[])[i]? <;> rfl
    rw [h.list, element]
    exact h.go (.value _)
  | argument name done rest node env =>
    have values : (v.relocate r :: done.map (Value.relocate r)).reverse =
        (v :: done).reverse.map (Value.relocate r) := by
      rw [List.map_reverse, List.map_cons]
    cases rest with
    | nil =>
      simp only [Frame.relocate, Node.mapAll, Situation.resume, values]
      exact h.invoke name _ node
    | cons e rest => exact h.await (.argument name (v :: done) rest node env) (.evaluate e env)
  | element done rest env =>
    have values : (v.relocate r :: done.map (Value.relocate r)).reverse.toArray =
        (v :: done).reverse.toArray.map (Value.relocate r) := by
      rw [List.map_toArray, List.map_reverse, List.map_cons]
    cases rest with
    | nil =>
      simp only [Frame.relocate, Node.mapAll, Situation.resume, values]
      exact h.newList _
    | cons e rest => exact h.await (.element (v :: done) rest env) (.evaluate e env)
  | discard => exact h.go .ended
  | declaration label name env => exact h.resumeDeclaration label name
  | assignment n offset receiver node env => exact h.resumeAssignment n offset receiver node
  | target list value receiver =>
    simp only [Frame.relocate, Situation.resume]
    refine h.requireIndex fun i => ?_
    simp only [h.world, World.relocate, Store.setElement_relocate]
    exact (h.withWorld (w := { s.world with
      store := s.world.store.setElement list i value })).go .ended
  | branch condition thenStatements elseStatements env =>
    refine h.requireBoolean fun b => h.notingText fun t t' h => ?_
    cases b with
    | false => exact h.enter elseStatements
    | true => exact h.enter thenStatements
  | subject cases env =>
    exact h.require (cases.items_map r) fun cases => h.select none cases
  | case subject default branch rest env =>
    have equal : s'.world.store.lists.equal s'.settings.depth (v.relocate r) (subject.relocate r) =
        r.result id (s.world.store.lists.equal s.settings.depth v subject) := by
      rw [h.world, h.settings]
      exact Lists.equal_relocate ..
    refine h.require equal fun same => ?_
    cases same with
    | true => exact h.take "case" branch
    | false => exact h.select default rest
  | condition condition statements env => exact h.resumeCondition condition statements
  | round e statements env => exact h.go (.value v)
  | rest statements env => exact h.go (.value v)
  | result => exact h.go (.leave v)
  | activation n => exact h.leaveCall v

theorem proceed (h : s.Relocates r s') (frame : Frame) :
    s'.proceed (frame.relocate r) = (s.proceed frame).relocate r := by
  cases frame with
  | activation n => exact h.leaveCall .nil
  | round condition statements env =>
    exact h.await (.condition condition statements env) (.evaluate condition env)
  | rest statements env => exact h.go (.execute statements env)
  | _ => exact h.go .ended

theorem unwind (h : s.Relocates r s') (frame : Frame) :
    s'.unwind (v.relocate r) (frame.relocate r) = (s.unwind v frame).relocate r := by
  cases frame with
  | activation n => exact h.leaveCall v
  | _ => exact h.go (.leave v)

end Situation.Relocates

end PlcLang
