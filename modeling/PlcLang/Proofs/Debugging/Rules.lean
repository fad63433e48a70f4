import PlcLang.Proofs.Debugging.Remarks
import PlcLang.Proofs.Running.Storage

/-! What a step does at a debug level, beside what it does where no notes are made. -/

namespace PlcLang

/-- The same with other notes. -/
def World.withNotes (w : World) (notes : Array Note) : World :=
  { w with notes := notes }

def Machine.withNotes (m : Machine) (notes : Array Note) : Machine :=
  { m with world := m.world.withNotes notes }

def Step.withNotes (notes : Array Note) : Step → Step
  | .next m => .next (m.withNotes notes)
  | .halt w r => .halt (w.withNotes notes) r

/-- The same at a debug level and with other notes. -/
def Situation.watched (s : Situation) (level : Nat) (notes : Array Note) : Situation :=
  { s with settings := { s.settings with debug := level }, world := s.world.withNotes notes }

theorem Situation.watched_store (s : Situation) (level : Nat) (notes : Array Note) :
    (s.watched level notes).world.store = s.world.store :=
  rfl

/-- Where so much is printed, a step that makes notes leads to the same as one that makes none, with
the note that is due; or the note fails, before anything else is printed. -/
inductive Step.Watched (level : Nat) (notes : Array Note) (output : String) :
    Option Remark → Step → Step → Prop where
  | unnoted {due : Option Remark} {step : Step} (quiet : ∀ r ∈ due, level < r.level) :
      Watched level notes output due step (step.withNotes notes)
  | noted {r : Remark} {note : Note} {step : Step} (loud : r.level ≤ level)
      (made : r.note = .ok note) :
      Watched level notes output (some r) step (step.withNotes (notes.push note))
  | failed {r : Remark} {f : Fault} {step : Step} {w : World} (loud : r.level ≤ level)
      (fails : r.note = .error f) (silent : w.output = output) :
      Watched level notes output (some r) step (.halt w (.error f))

/-- Notes are nothing to the variables that arguments become. -/
theorem World.bind_withNotes (w : World) (notes : Array Note) (env : Env) (found : Annotations)
    (arguments : List (Declared Label × Value)) :
    (w.withNotes notes).bind env found arguments =
      ((w.bind env found arguments).1.withNotes notes, (w.bind env found arguments).2) := by
  induction arguments generalizing w with
  | nil => rfl
  | cons argument rest ih =>
    obtain ⟨p, v⟩ := argument
    simp only [bind]
    cases p.name.key with
    | error f => rfl
    | ok key =>
      change (if w.store.taken env key then _ else _) = _
      by_cases taken : w.store.taken env key = true
      · simp only [if_pos taken]
      · simp only [if_neg taken]
        exact ih (w.add env key p.name (found.of p.label).binding true v)

/-- Notes are nothing to a new variable. -/
theorem World.addFree_withNotes (w : World) (notes : Array Note) (env : Env) (name : Json)
    (binding : Option Binding) (isMutable : Bool) (v : Value) (subject : Option (Node Label)) :
    (w.withNotes notes).addFree env name binding isMutable v subject =
      (w.addFree env name binding isMutable v subject).map (·.withNotes notes) := by
  cases isName : name.key with
  | error f =>
    simp only [addFree, isName, Bind.bind, Except.bind]
    rfl
  | ok key =>
    rw [addFree_eq isName, addFree_eq isName]
    change (if w.store.taken env key then _ else _) = _
    split <;> rfl

namespace Situation

variable {s : Situation} {level : Nat} {notes : Array Note} {env : Env}

/-! ### Rules without notes -/

theorem require_watched {α : Type} {x : Except Fault α} {k k' : α → Step}
    (hk : ∀ a, k' a = (k a).withNotes notes) :
    (s.watched level notes).require x k' = (s.require x k).withNotes notes := by
  cases x with
  | error f => rfl
  | ok a => exact hk a

theorem requireBoolean_watched {v : Value} {e : Node Label} {k k' : Bool → Step}
    (hk : ∀ b, k' b = (k b).withNotes notes) :
    (s.watched level notes).requireBoolean v e k' = (s.requireBoolean v e k).withNotes notes := by
  cases v with
  | boolean b => exact hk b
  | _ => rfl

theorem requireList_watched {v : Value} {e : Node Label} {k k' : Nat → Step}
    (hk : ∀ list, k' list = (k list).withNotes notes) :
    (s.watched level notes).requireList v e k' = (s.requireList v e k).withNotes notes := by
  cases v with
  | list address => exact hk address
  | _ => rfl

theorem requireIndex_watched {list : Nat} {v : Value} {e : Node Label} {k k' : Nat → Step}
    (hk : ∀ i, k' i = (k i).withNotes notes) :
    (s.watched level notes).requireIndex list v e k' =
      (s.requireIndex list v e k).withNotes notes := by
  cases v with
  | integer n =>
    let length : Int := (s.world.store.lists[list]?.getD #[]).size
    change (if n < 0 ∨ length ≤ n then _ else k' n.toNat) =
      Step.withNotes notes (if n < 0 ∨ length ≤ n then _ else k n.toNat)
    split
    · rfl
    · exact hk _
  | _ => rfl

theorem resolve_watched {binding : Option Binding} {name : Json} {node : Node Label}
    {k k' : Nat → Variable → Step} (hk : ∀ n x, k' n x = (k n x).withNotes notes) :
    (s.watched level notes).resolve env binding name node k' =
      (s.resolve env binding name node k).withNotes notes := by
  simp only [resolve, watched, World.withNotes]
  split
  · rfl
  · rfl
  · split
    · exact hk _ _
    · rfl

theorem execute_watched (statements : Node Label) :
    (s.watched level notes).execute statements env =
      (s.execute statements env).withNotes notes := by
  apply require_watched
  intro statements
  rfl

theorem enter_watched (statements : Node Label) :
    (s.watched level notes).enter statements env = (s.enter statements env).withNotes notes :=
  execute_watched (s := s.withWorld (s.world.openBlock env).1) statements

theorem invoke_watched {name : Json} {arguments : List Value} {node : Node Label} :
    (s.watched level notes).invoke env name arguments node =
      (s.invoke env name arguments node).withNotes notes := by
  apply require_watched
  intro key
  simp only [watched, World.withNotes]
  split <;> rfl

theorem evaluate_watched (e : Node Label) :
    (s.watched level notes).evaluate e env = (s.evaluate e env).withNotes notes := by
  cases e with
  | binary label op left right => cases op <;> rfl
  | access label name offset =>
    apply resolve_watched
    intro n x
    split
    · rfl
    · apply requireList_watched
      intro list
      rfl
  | call label name arguments =>
    apply require_watched
    intro items
    cases items with
    | nil => exact invoke_watched
    | cons first rest => rfl
  | listLiteral label elements =>
    apply require_watched
    intro items
    cases items <;> rfl
  | _ => rfl

theorem executeOne_watched (statement : Node Label) :
    (s.watched level notes).executeOne statement env =
      (s.executeOne statement env).withNotes notes := by
  cases statement with
  | assignment receiver value =>
    cases receiver with
    | access label name offset =>
      apply resolve_watched
      intro n x
      rfl
    | _ => rfl
  | loop condition statements =>
    simp only [executeOne, watched]
    cases s.settings.loops <;> rfl
  | _ => rfl

theorem executeAll_watched (statements : List (Node Label)) :
    (s.watched level notes).executeAll statements env =
      (s.executeAll statements env).withNotes notes := by
  cases statements with
  | nil => rfl
  | cons first rest => exact executeOne_watched (s := s.behind (.rest rest env)) first

theorem global_watched {g functions : Node Label} {rest : List (Node Label)} :
    (s.watched level notes).global g rest functions env =
      (s.global g rest functions env).withNotes notes := by
  unfold global
  cases g.content? with
  | none => rfl
  | some content => cases content <;> rfl

theorem start_watched : (s.watched level notes).start env = (s.start env).withNotes notes := by
  simp only [start, watched]
  cases s.program.tree with
  | source globals functions =>
    apply require_watched
    intro items
    rfl
  | _ => rfl

theorem proceed_watched (frame : Frame) :
    (s.watched level notes).proceed frame = (s.proceed frame).withNotes notes := by
  cases frame <;> rfl

theorem unwind_watched (v : Value) (frame : Frame) :
    (s.watched level notes).unwind v frame = (s.unwind v frame).withNotes notes := by
  cases frame <;> rfl

/-! ### Rules with notes -/

/-- Without notes to make, a rule goes on at once; with them, it goes on with the note. -/
theorem noting_watched {due : Nat} {n : World → Except Fault Note} {made : Except Fault Note}
    {k : Situation → Step} (quiet : s.settings.debug = 0) (positive : 0 < due)
    (same : n (s.world.withNotes notes) = made)
    (hk : ∀ notes, k (s.watched level notes) = (k s).withNotes notes) :
    Step.Watched level notes s.world.output (some ⟨due, made⟩) (s.noting due n k)
      ((s.watched level notes).noting due n k) := by
  have silent : s.noting due n k = k s := by rw [noting, if_pos (quiet ▸ positive)]
  rw [silent]
  by_cases low : level < due
  · have skipped : (s.watched level notes).noting due n k = k (s.watched level notes) := if_pos low
    rw [skipped, hk]
    refine .unnoted fun r hr => ?_
    cases hr
    exact low
  · have reached : (s.watched level notes).noting due n k =
        (s.watched level notes).require (n (s.world.withNotes notes)) fun note =>
          k (s.watched level (notes.push note)) := if_neg low
    rw [reached, same]
    have loud : due ≤ level := Nat.not_lt.1 low
    cases made with
    | ok note =>
      have goes : ((s.watched level notes).require (.ok note) fun note =>
          k (s.watched level (notes.push note))) = (k s).withNotes (notes.push note) := hk _
      rw [goes]
      exact .noted loud rfl
    | error f => exact .failed loud rfl rfl

theorem notingText_watched {due : Nat} {v : Value} {n : String → Note} {k : Situation → Step}
    (quiet : s.settings.debug = 0) (positive : 0 < due)
    (hk : ∀ notes, k (s.watched level notes) = (k s).withNotes notes) :
    Step.Watched level notes s.world.output (some (s.remarkOn due v n)) (s.notingText due v n k)
      ((s.watched level notes).notingText due v n k) :=
  noting_watched quiet positive rfl hk

/-- A rule that makes no note. -/
theorem unnoted_watched {step step' : Step} (same : step' = step.withNotes notes) :
    Step.Watched level notes s.world.output none step step' := by
  rw [same]
  exact .unnoted fun r hr => by cases hr

theorem take_watched {subject : Value} {reason : String} {branch : Node Label}
    (quiet : s.settings.debug = 0) :
    Step.Watched level notes s.world.output (some (s.remarkOn 3 subject (.switched · reason)))
      (s.take subject reason branch env) ((s.watched level notes).take subject reason branch env) := by
  apply notingText_watched quiet (by decide)
  intro notes
  cases branch with
  | case value statements => exact enter_watched statements
  | _ => rfl

theorem select_watched {subject : Value} (default : Option (Node Label))
    (cases : List (Node Label)) (quiet : s.settings.debug = 0) :
    Step.Watched level notes s.world.output (s.selectRemark subject default cases)
      (s.select subject default env cases)
      ((s.watched level notes).select subject default env cases) := by
  induction cases generalizing default with
  | nil =>
    cases default with
    | none => exact unnoted_watched rfl
    | some branch => exact take_watched quiet
  | cons case rest ih =>
    simp only [select, selectRemark]
    cases case.content? with
    | none => exact unnoted_watched rfl
    | some content =>
      cases content with
      | nothing => exact ih (some case)
      | node value => exact unnoted_watched rfl
      | bare value => exact unnoted_watched rfl

theorem call_watched (n : Nat) (arguments : List Value) (quiet : s.settings.debug = 0) :
    Step.Watched level notes s.world.output (s.callRemark n arguments) (s.call n arguments)
      ((s.watched level notes).call n arguments) := by
  simp only [call, callRemark, watched, World.withNotes]
  cases s.world.store.functions[n]? with
  | none => exact unnoted_watched rfl
  | some f =>
    refine noting_watched quiet (by decide) rfl ?_
    intro notes
    cases f.body with
    | print =>
      apply require_watched
      intro text
      rfl
    | code parameters statements home =>
      change (if s.settings.depth ≤ s.calls then _ else _) =
        Step.withNotes notes (if s.settings.depth ≤ s.calls then _ else _)
      split
      · rfl
      · have bound : World.bind ((s.watched level notes).world.openBlock home).1
            ((s.watched level notes).world.openBlock home).2 (s.watched level notes).program.found
            (parameters.zip arguments) = _ :=
          World.bind_withNotes (s.world.openBlock home).1 notes (s.world.openBlock home).2
            s.program.found (parameters.zip arguments)
        rw [bound]
        generalize World.bind _ _ _ _ = bound
        obtain ⟨w, fault⟩ := bound
        cases fault with
        | some f => rfl
        | none =>
          exact execute_watched (s := Situation.behind
            { s with world := w, calls := s.calls + 1 } (.activation n)) statements

theorem resume_watched (v : Value) (frame : Frame) (quiet : s.settings.debug = 0) :
    Step.Watched level notes s.world.output (s.resumeRemark v frame) (s.resume v frame)
      ((s.watched level notes).resume v frame) := by
  cases frame with
  | global g rest functions env =>
    cases g with
    | global label name isMutable typeName value =>
      simp only [resume, resumeRemark]
      have added := World.addFree_withNotes s.world notes env name (s.annotation label).binding
        isMutable v (some (.global label name isMutable typeName value))
      change Step.Watched level notes s.world.output _ _
        ((s.watched level notes).require ((s.world.withNotes notes).addFree env name
          (s.annotation label).binding isMutable v
          (some (.global label name isMutable typeName value))) _)
      rw [added]
      cases isName : name.key with
      | error f =>
        simp only [World.addFree, isName, Bind.bind, Except.bind]
        exact unnoted_watched rfl
      | ok key =>
        rw [World.addFree_eq isName]
        by_cases taken : s.world.store.taken env key = true
        · simp only [if_pos taken]
          exact unnoted_watched rfl
        · simp only [if_neg taken, Except.map, require, Step.require]
          refine notingText_watched (s := s.withWorld
            (s.world.add env key name (s.annotation label).binding isMutable v)) quiet
            (show 0 < 2 by decide) ?_
          intro notes
          rfl
    | _ => exact unnoted_watched rfl
  | declaration label name env =>
    simp only [resume, resumeRemark]
    cases name.key with
    | error f => exact unnoted_watched rfl
    | ok key =>
      simp only [require, Step.require]
      refine notingText_watched (s := s.withWorld
        (s.world.add env key name (s.annotation label).binding true v)) quiet (show 0 < 2 by decide) ?_
      intro notes
      rfl
  | branch condition thenStatements elseStatements env =>
    cases v with
    | boolean b =>
      simp only [resume, resumeRemark, requireBoolean]
      refine notingText_watched quiet (show 0 < 3 by decide) ?_
      intro notes
      exact enter_watched _
    | _ => exact unnoted_watched rfl
  | condition condition statements env =>
    cases v with
    | boolean b =>
      simp only [resume, resumeRemark, requireBoolean]
      refine notingText_watched quiet (show 0 < 3 by decide) ?_
      intro notes
      cases b with
      | false => rfl
      | true =>
        simp only [watched]
        cases s.settings.loops with
        | shared =>
          have body : ((s.behind (.round condition statements env)).watched level notes).execute
              statements env = _ := execute_watched statements
          exact body
        | perRound =>
          have body : (((s.withWorld (s.world.openBlock env).1).behind
              (.round condition statements env)).watched level notes).execute statements
                (s.world.openBlock env).2 = _ := execute_watched statements
          exact body
    | _ => exact unnoted_watched rfl
  | subject cases env =>
    simp only [resume, resumeRemark]
    cases cases.items with
    | error f => exact unnoted_watched rfl
    | ok cases => exact select_watched none cases quiet
  | case subject default case rest env =>
    simp only [resume, resumeRemark]
    change Step.Watched level notes s.world.output _ _ ((s.watched level notes).require
      (s.world.store.lists.equal s.settings.depth v subject) _)
    cases s.world.store.lists.equal s.settings.depth v subject with
    | error f => exact unnoted_watched rfl
    | ok same =>
      cases same with
      | true => exact take_watched quiet
      | false => exact select_watched default rest quiet
  | test decisive left right env =>
    apply unnoted_watched
    apply requireBoolean_watched
    intro b
    split <;> rfl
  | boolean e =>
    apply unnoted_watched
    apply requireBoolean_watched
    intro b
    rfl
  | right op left node =>
    apply unnoted_watched
    apply require_watched
    intro v
    rfl
  | index list node =>
    apply unnoted_watched
    simp only [resume]
    apply requireIndex_watched
    intro i
    rfl
  | argument name done rest node env =>
    apply unnoted_watched
    cases rest with
    | nil => exact invoke_watched
    | cons e rest => rfl
  | element done rest env =>
    apply unnoted_watched
    cases rest <;> rfl
  | assignment n offset receiver node env =>
    apply unnoted_watched
    simp only [resume, watched_store]
    cases s.world.store.vars[n]? with
    | none => rfl
    | some x =>
      simp only
      split
      · rfl
      · split
        · rfl
        · apply requireList_watched
          intro list
          rfl
  | target list value receiver =>
    apply unnoted_watched
    simp only [resume]
    apply requireIndex_watched
    intro i
    rfl
  | left | discard | round | rest | result | activation => exact unnoted_watched rfl

theorem defineFunction_watched (f : Node Label) (rest : List (Node Label))
    (quiet : s.settings.debug = 0) :
    Step.Watched level notes s.world.output (s.defineRemark f env) (s.defineFunction f rest env)
      ((s.watched level notes).defineFunction f rest env) := by
  cases f with
  | function label name parameters returnTypeName statements =>
    simp only [defineFunction, defineRemark]
    generalize (do
      let parameters ← Node.headerTypes _ (← parameters.items)
      return (parameters, ← resolveOptional returnTypeName _, ← name.key) : Except Fault
        (List (Declared Label × Ty) × Option Ty × Key)) = header
    cases header with
    | error f => exact unnoted_watched rfl
    | ok header =>
      obtain ⟨parameters, returns, key⟩ := header
      simp only [require, Step.require, watched_store]
      cases s.world.store.defineFunction env key _ with
      | none => exact unnoted_watched rfl
      | some defined =>
        refine noting_watched (s := s.withWorld { s.world with store := defined.1 }) quiet
          (show 0 < 2 by decide) rfl ?_
        intro notes
        rfl
  | _ => exact unnoted_watched rfl

end Situation

/-- One step of a run at a debug level. -/
theorem Machine.step_watched {settings : Settings} {program : Annotated} {level : Nat}
    {notes : Array Note} (m : Machine) (quiet : settings.debug = 0) :
    Step.Watched level notes m.world.output (m.remark settings program) (m.step settings program)
      ((m.withNotes notes).step { settings with debug := level } program) := by
  obtain ⟨control, frames, calls, w⟩ := m
  let s : Situation := ⟨settings, program, frames, calls, w⟩
  have quiet : s.settings.debug = 0 := quiet
  cases control with
  | start env => exact Situation.unnoted_watched (s := s) s.start_watched
  | globals rest functions env =>
    apply Situation.unnoted_watched (s := s)
    cases rest with
    | nil =>
      apply Situation.require_watched (s := s)
      intro items
      rfl
    | cons g rest => exact Situation.global_watched (s := s)
  | functions rest env =>
    cases rest with
    | nil => exact Situation.unnoted_watched (s := s) rfl
    | cons f rest => exact Situation.defineFunction_watched (s := s) f rest quiet
  | main env =>
    apply Situation.unnoted_watched (s := s)
    simp only [step, withNotes, World.withNotes]
    cases w.store.findFunction env (.text "main") 0 <;> rfl
  | evaluate e env => exact Situation.unnoted_watched (s := s) (s.evaluate_watched e)
  | execute statements env =>
    exact Situation.unnoted_watched (s := s) (s.executeAll_watched statements)
  | call n arguments => exact Situation.call_watched (s := s) n arguments quiet
  | value v =>
    cases frames with
    | nil => exact Situation.unnoted_watched (s := s) rfl
    | cons frame frames =>
      exact Situation.resume_watched (s := { s with frames := frames }) v frame quiet
  | ended =>
    apply Situation.unnoted_watched (s := s)
    cases frames with
    | nil => rfl
    | cons frame frames => exact Situation.proceed_watched (s := { s with frames := frames }) frame
  | leave v =>
    apply Situation.unnoted_watched (s := s)
    cases frames with
    | nil => rfl
    | cons frame frames => exact Situation.unwind_watched (s := { s with frames := frames }) v frame

end PlcLang
