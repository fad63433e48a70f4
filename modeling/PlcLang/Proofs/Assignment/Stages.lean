import PlcLang.Proofs.Confinement.Rules

/-! What the steps of an assignment do, one after another. -/

namespace PlcLang

section

variable (settings : Settings) (program : Annotated) (m : Machine)

/-- What the steps of a machine lead to up to the value of the expression that it evaluates. -/
inductive Machine.Works : Step → Prop where
  | start : Works (.next m)
  | later {m' : Machine} (before : Works (.next m'))
      (busy : m'.control.isSettled = true → m'.frames ≠ m.frames) :
      Works (m'.step settings program)

/-- The expression that a machine evaluates comes to a value, and the machine to another. -/
structure Machine.Comes (v : Value) (m' : Machine) : Prop where
  works : m.Works settings program (.next m')
  value : m'.control = .value v
  frames : m'.frames = m.frames

end

section

variable {settings : Settings} {program : Annotated} {m m' : Machine} {last : Step}

/-- The frames that wait for the value stay. -/
theorem Machine.Works.inside {e : Node Label} {env : Env} (here : m.control = .evaluate e env)
    (works : m.Works settings program last) :
    last.Inside (.value settings m.world.store m.frames) := by
  induction works with
  | start =>
    obtain ⟨control, K, calls, w⟩ := m
    cases here
    exact .intro (.evaluate fun _ _ _ => trivial) (.bottom rfl rfl) (.refl _)
  | later _ busy ih => exact Machine.Inside.step ih Region.closed_value rfl busy

/-- An evaluation is a part of a run. -/
theorem Machine.Works.spans {m₀ : Machine}
    (begun : m₀.Spans settings program (fun _ => True) (.next m))
    (works : m.Works settings program last) :
    m₀.Spans settings program (fun _ => True) last := by
  induction works with
  | start => exact begun
  | later _ _ ih => exact ih.later trivial

/-- An evaluation goes on, or it has come to a value. -/
theorem Machine.Works.comes {e : Node Label} {env : Env} (here : m.control = .evaluate e env)
    (works : m.Works settings program (.next m')) :
    m.Works settings program (m'.step settings program) ∨
      ∃ v, m.Comes settings program v m' := by
  by_cases there : m'.control.isSettled = true ∧ m'.frames = m.frames
  · obtain ⟨done, frames⟩ := there
    have arrives : m'.control.Inside (.value settings m.world.store m.frames) .value :=
      Machine.Inside.arrives (works.inside here) frames
    obtain ⟨control, K, calls, w⟩ := m'
    cases arrives with
    | evaluate | call => cases done
    | @value v => exact .inr ⟨v, works, rfl, frames⟩
  · exact .inl (works.later fun done frames => there ⟨done, frames⟩)

end

/-- A place for a value. -/
inductive Cell where
  | var (n : Nat)
  | element (list i : Nat)
deriving DecidableEq

/-- What is in a place, if it is there. -/
def Store.cell (s : Store) : Cell → Option Value
  | .var n => s.vars[n]?.map (·.value)
  | .element list i => s.lists[list]?.bind (·[i]?)

/-- What is read with an index from a value. -/
def Store.item (s : Store) (v : Value) (i : Nat) : Option Value :=
  match v with
  | .list list => s.cell (.element list i)
  | _ => none

/-- A place has another value, and all others the values that they had. -/
structure Store.Writes (c : Cell) (v : Value) (s s' : Store) : Prop where
  there : (s.cell c).isSome = true
  written : s'.cell c = some v
  others : ∀ c', c' ≠ c → s'.cell c' = s.cell c'

namespace Store

variable {s : Store} {n list i : Nat} {x : Variable} {items : Array Value} {v : Value}

theorem writes_setValue (known : s.vars[n]? = some x) :
    s.Writes (.var n) v (s.setValue n v) where
  there := by
    rw [cell, known]
    rfl
  written := by
    simp only [cell, setValue, Array.getElem?_modify, ↓reduceIte, known, Option.map_some]
  others c other := by
    cases c with
    | var k =>
      have other : n ≠ k := fun same => other (congrArg Cell.var same.symm)
      simp only [cell, setValue, Array.getElem?_modify, if_neg other]
    | element => rfl

theorem writes_setElement (known : s.lists[list]? = some items) (inside : i < items.size) :
    s.Writes (.element list i) v (s.setElement list i v) where
  there := by
    simp only [cell, known, Option.bind_some, Array.getElem?_eq_getElem inside, Option.isSome_some]
  written := by
    simp only [cell, setElement, Array.getElem?_modify, ↓reduceIte, known, Option.map_some,
      Option.bind_some, Array.getElem?_setIfInBounds_self_of_lt inside]
  others c other := by
    cases c with
    | var => rfl
    | element list' i' =>
      simp only [cell, setElement, Array.getElem?_modify]
      split
      · rename_i same
        subst same
        have other : i ≠ i' := fun same => other (same ▸ rfl)
        simp only [known, Option.map_some, Option.bind_some, Array.getElem?_setIfInBounds_ne other]
      · rfl

end Store

/-- An assignment that a machine is about to execute, and the statements behind it. -/
structure Assignment where
  settings : Settings
  program : Annotated
  start : Machine
  receiver : Node Label
  value : Node Label
  rest : List (Node Label)
  inner : Env
  begins : start.control = .execute (.assignment receiver value :: rest) inner

namespace Assignment

variable (a : Assignment)

/-- The frames that wait for the end of the assignment. -/
def behind : List Frame :=
  .rest a.rest a.inner :: a.start.frames

/-- The machine that evaluates the new value, for a variable. -/
def valuing (n : Nat) (offset : Node Label) : Machine :=
  ⟨.evaluate a.value a.inner,
    .assignment n offset a.receiver (.assignment a.receiver a.value) a.inner :: a.behind,
    a.start.calls, a.start.world⟩

/-- The machine that evaluates the offset, for a list and the new value. -/
def indexing (m : Machine) (list : Nat) (v : Value) (offset : Node Label) : Machine :=
  ⟨.evaluate offset a.inner, .target list v a.receiver :: a.behind, m.calls, m.world⟩

/-- The receiver stands for a variable. -/
def Receives (n : Nat) (offset : Node Label) : Prop :=
  ∃ label name x, a.receiver = .access label name offset ∧
    a.start.world.store.resolve a.inner ((a.program.found.of label).binding.map (·.id)) name =
      some (some n) ∧ a.start.world.store.vars[n]? = some x

/-- The new value is there, and so is the variable. -/
structure Valued (n : Nat) (offset : Node Label) (v : Value) (m : Machine) (x : Variable) :
    Prop where
  receives : a.Receives n offset
  comes : (a.valuing n offset).Comes a.settings a.program v m
  known : m.world.store.vars[n]? = some x

/-- The variable can change, and the offset is to say which element of its list. -/
structure Selects (n : Nat) (offset : Node Label) (v : Value) (m : Machine) (list : Nat) :
    Prop where
  valued : ∃ x, a.Valued n offset v m x ∧ x.isMutable = true ∧ x.value = .list list
  given : offset.isAbsent = false

/-- The assignment ends the run with a fault of its own, after the evaluation of nothing, of the
value, or of value and offset. -/
inductive Refused : World → Fault → Prop where
  | unresolved {f : Fault} (none : ∀ n offset, ¬ a.Receives n offset) :
      Refused a.start.world f
  | immutable {n : Nat} {offset : Node Label} {v : Value} {m : Machine} {x : Variable}
      (valued : a.Valued n offset v m x) (fixed : x.isMutable = false) :
      Refused m.world
        (.ofCause (.immutable x.name) (some (.assignment a.receiver a.value)))
  | noList {n : Nat} {offset : Node Label} {v : Value} {m : Machine} {x : Variable}
      (valued : a.Valued n offset v m x) (changes : x.isMutable = true)
      (given : offset.isAbsent = false) (other : ∀ list, x.value ≠ .list list) :
      Refused m.world (.ofCause (.notIndexable x.value.tag) (some a.receiver))
  | noElement {n : Nat} {offset : Node Label} {v u : Value} {m m' : Machine} {list : Nat}
      {f : Fault} (selects : a.Selects n offset v m list)
      (comes : (a.indexing m list v offset).Comes a.settings a.program u m')
      (none : ∀ (i : Nat) (items : Array Value), u = .integer i →
        m'.world.store.lists[list]? = some items → items.size ≤ i) :
      Refused m'.world f

/-- The assignment has written a value to a cell of a world, which is the one after the evaluation
of the value and of the offset, if there is one. -/
inductive Assigned : World → Cell → Value → Machine → Prop where
  | whole {n : Nat} {offset : Node Label} {v : Value} {m : Machine} {x : Variable}
      (valued : a.Valued n offset v m x) (changes : x.isMutable = true)
      (absent : offset.isAbsent = true) :
      Assigned m.world (.var n) v ⟨.ended, a.behind, m.calls,
        { m.world with store := m.world.store.setValue n v }⟩
  | element {n list i : Nat} {offset : Node Label} {v : Value} {m m' : Machine}
      {items : Array Value} (selects : a.Selects n offset v m list)
      (comes : (a.indexing m list v offset).Comes a.settings a.program (.integer i) m')
      (known : m'.world.store.lists[list]? = some items) (inside : i < items.size) :
      Assigned m'.world (.element list i) v ⟨.ended, a.behind, m'.calls,
        { m'.world with store := m'.world.store.setElement list i v }⟩

/-- How far an assignment has come. -/
inductive Stage : Step → Prop where
  | value {n : Nat} {offset : Node Label} {step : Step} (receives : a.Receives n offset)
      (works : (a.valuing n offset).Works a.settings a.program step) : Stage step
  | offset {n list : Nat} {offset : Node Label} {v : Value} {m : Machine} {step : Step}
      (selects : a.Selects n offset v m list)
      (works : (a.indexing m list v offset).Works a.settings a.program step) : Stage step
  | refused {w : World} {f : Fault} (refused : a.Refused w f) : Stage (.halt w (.error f))
  | assigned {w : World} {c : Cell} {v : Value} {m : Machine} (assigned : a.Assigned w c v m) :
      Stage (.next m)
  | complete {w : World} {c : Cell} {v : Value} {m : Machine} (assigned : a.Assigned w c v m) :
      Stage (.next ⟨.execute a.rest a.inner, a.start.frames, m.calls, m.world⟩)

variable {a} {n list : Nat} {offset : Node Label} {v u : Value} {m m' : Machine} {last : Step}

theorem step_start : a.start.step a.settings a.program =
    Situation.executeOne ⟨a.settings, a.program, a.behind, a.start.calls, a.start.world⟩
      (.assignment a.receiver a.value) a.inner := by
  simp only [Machine.step, a.begins]
  rfl

theorem Receives.access {label : Label} {name : Json} {offset' : Node Label}
    (receives : a.Receives n offset') (kind : a.receiver = .access label name offset) :
    ∃ x, a.start.world.store.resolve a.inner ((a.program.found.of label).binding.map (·.id)) name =
      some (some n) ∧ a.start.world.store.vars[n]? = some x := by
  obtain ⟨_, _, x, same, found, known⟩ := receives
  cases kind.symm.trans same
  exact ⟨x, found, known⟩

/-- The first step goes on to the value. -/
theorem Receives.step (receives : a.Receives n offset) :
    a.start.step a.settings a.program = .next (a.valuing n offset) := by
  obtain ⟨label, name, x, kind, found, known⟩ := receives
  rw [step_start, valuing, kind]
  simp only [Situation.executeOne, Situation.resolve, Situation.annotation, found, known,
    Situation.await]

/-- The first step finds the variable, or there is none. -/
theorem stage_first : a.Stage (a.start.step a.settings a.program) := by
  rw [step_start]
  cases kind : a.receiver with
  | access label name offset =>
    simp only [Situation.executeOne, Situation.resolve, Situation.annotation]
    cases found : a.start.world.store.resolve a.inner
        ((a.program.found.of label).binding.map (·.id)) name with
    | none =>
      refine .refused (.unresolved fun n offset' receives => ?_)
      obtain ⟨x, found', _⟩ := receives.access kind
      cases found.symm.trans found'
    | some place =>
      cases place with
      | none =>
        refine .refused (.unresolved fun n offset' receives => ?_)
        obtain ⟨x, found', _⟩ := receives.access kind
        cases found.symm.trans found'
      | some n =>
        dsimp only
        cases known : a.start.world.store.vars[n]? with
        | none =>
          refine .refused (.unresolved fun n' offset' receives => ?_)
          obtain ⟨x, found', known'⟩ := receives.access kind
          cases found.symm.trans found'
          cases known.symm.trans known'
        | some x =>
          have receives : a.Receives n offset := ⟨label, name, x, kind, found, known⟩
          have value : a.Stage (.next (a.valuing n offset)) := .value receives .start
          rw [valuing, kind] at value
          exact value
  | _ =>
    refine .refused (.unresolved fun n offset receives => ?_)
    obtain ⟨_, _, _, same, _⟩ := receives
    cases kind.symm.trans same

/-- The receiver stands for one variable. -/
theorem Receives.unique {n' : Nat} {offset' : Node Label} (receives : a.Receives n offset)
    (again : a.Receives n' offset') : n' = n ∧ offset' = offset := by
  obtain ⟨label, name, x, kind, found, -⟩ := receives
  have same := again
  obtain ⟨_, _, _, kind', _, _⟩ := again
  obtain ⟨_, found', _⟩ := same.access kind
  cases found.symm.trans found'
  cases kind.symm.trans kind'
  exact ⟨rfl, rfl⟩

/-- The variable of an assignment is still there when the value is. -/
theorem Receives.still (receives : a.Receives n offset)
    (comes : (a.valuing n offset).Comes a.settings a.program v m) :
    ∃ x, m.world.store.vars[n]? = some x := by
  obtain ⟨_, _, x, _, _, known⟩ := receives
  have old := (Array.getElem?_eq_some_iff.1 known).1
  have within : m.world.store.Within (.value a.settings a.start.world.store _) :=
    Machine.Inside.within (comes.works.inside rfl)
  exact ⟨_, Array.getElem?_eq_getElem (Nat.lt_of_lt_of_le old within.vars)⟩

/-- With the value, the variable is written, or its list is looked up, or the assignment is
refused. -/
theorem stage_value (receives : a.Receives n offset)
    (comes : (a.valuing n offset).Comes a.settings a.program v m) :
    a.Stage (m.step a.settings a.program) := by
  obtain ⟨x, known⟩ := receives.still comes
  have valued : a.Valued n offset v m x := ⟨receives, comes, known⟩
  have resumes : m.step a.settings a.program =
      Situation.resume ⟨a.settings, a.program, a.behind, m.calls, m.world⟩ v
        (.assignment n offset a.receiver (.assignment a.receiver a.value) a.inner) := by
    simp only [Machine.step, comes.value, comes.frames]
    rfl
  rw [resumes]
  simp only [Situation.resume, known]
  cases changes : x.isMutable with
  | false => exact .refused (.immutable valued changes)
  | true =>
    cases given : offset.isAbsent with
    | true => exact .assigned (.whole valued changes given)
    | false =>
      cases holds : x.value with
      | list list => exact .offset ⟨⟨x, valued, changes, holds⟩, given⟩ .start
      | _ =>
        have refused : a.Refused m.world (.ofCause (.notIndexable x.value.tag) (some a.receiver)) :=
          .noList valued changes given fun list same => by
            rw [holds] at same
            cases same
        rw [holds] at refused
        exact .refused refused

/-- With the offset, an element is written, or the assignment is refused. -/
theorem stage_offset (selects : a.Selects n offset v m list)
    (comes : (a.indexing m list v offset).Comes a.settings a.program u m') :
    a.Stage (m'.step a.settings a.program) := by
  have resumes : m'.step a.settings a.program =
      Situation.resume ⟨a.settings, a.program, a.behind, m'.calls, m'.world⟩ u
        (.target list v a.receiver) := by
    simp only [Machine.step, comes.value, comes.frames]
    rfl
  rw [resumes]
  simp only [Situation.resume]
  rcases Situation.requireIndex_cases ⟨a.settings, a.program, a.behind, m'.calls, m'.world⟩ list u
    a.receiver with ⟨f, fails, none⟩ | ⟨i, items, rfl, known, inside, goes⟩
  · rw [fails]
    exact .refused (.noElement selects comes none)
  · rw [goes]
    exact .assigned (.element selects comes known inside)

/-- Until it is over, an assignment goes from stage to stage. -/
theorem stage (under : a.start.Under a.settings a.program (.rest a.rest a.inner) last) :
    a.Stage last := by
  induction under with
  | first => exact stage_first
  | @later m' _ still ih =>
    cases ih with
    | value receives works =>
      rcases works.comes rfl with works | ⟨v, comes⟩
      · exact .value receives works
      · exact stage_value receives comes
    | offset selects works =>
      rcases works.comes rfl with works | ⟨u, comes⟩
      · exact .offset selects works
      · exact stage_offset selects comes
    | assigned assigned =>
      have complete : a.Stage _ := .complete assigned
      cases assigned <;> exact complete
    | complete =>
      have longer := still.length_le
      exact (Nat.not_succ_le_self _ longer).elim

/-- What is written is one place of the store that the evaluations lead to. -/
theorem Assigned.writes {w : World} {c : Cell} (assigned : a.Assigned w c v m) :
    w.store.Writes c v m.world.store := by
  cases assigned with
  | whole valued => exact Store.writes_setValue valued.known
  | element _ _ known inside => exact Store.writes_setElement known inside

end Assignment

end PlcLang
