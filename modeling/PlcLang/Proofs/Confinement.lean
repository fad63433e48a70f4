import Mathlib
import PlcLang.Proofs.Confinement.Hosts
import PlcLang.Proofs.Confinement.Rules
import PlcLang.Session
import PlcLang.Tree.Program

namespace PlcLang

/-- The block with a variable for a declaration: the name stands for it, and so does the
declaration, if known. -/
def Block.declare (b : Block) (key : Key) (id : Option DeclId) (n : Nat) : Block :=
  { b with
    vars := b.vars.put key n
    bindings := match id with
      | some id => b.bindings.put id n
      | none => b.bindings }

section

variable {settings : Settings} {program : Annotated} {m : Machine} {last : Step}

/-- The region of a call: of the blocks that are there it is near to those of the home. -/
def Region.call (settings : Settings) (m : Machine) (home : Env) : Region :=
  ⟨m.world.store, (· ∈ home.chain), settings.loops, .value, m.frames⟩

/-- Functions of the blocks around a function have their homes there. -/
theorem Region.closed_call {envs : List Env} {home : Env} (hosting : m.world.store.Hosting envs)
    (mem : home ∈ envs) : (Region.call settings m home).Closed := by
  intro b near key k found f parameters statements inner known body b' inside _
  obtain ⟨hosted, placed⟩ := hosting.homes k f parameters statements inner known body
  rw [placed b key found] at near
  exact hosting.nested home mem inner hosted near b' inside

/-- From a call to its end, the blocks that were there have the names that they had, and those
around the function alone can have other values. -/
theorem Machine.call_leaves {envs : List Env} {k : Nat} {arguments : List Value} {f : Callable}
    {parameters : List (Declared Label)} {statements : Node Label} {home : Env}
    (hosting : m.world.store.Hosting envs) (here : m.control = .call k arguments)
    (known : m.world.store.functions[k]? = some f)
    (body : f.body = .code parameters statements home)
    (spans : m.Under settings program (.activation k) last) :
    last.world.store.Within (Region.call settings m home) := by
  obtain ⟨mem, -⟩ := hosting.homes k f parameters statements home known body
  have may : (Region.call settings m home).MayCall k := by
    intro g _ _ _ known' body' b inside _
    cases known.symm.trans known'
    cases body.symm.trans body'
    exact inside
  have inside : m.Inside (Region.call settings m home) := by
    obtain ⟨control, K, calls, w⟩ := m
    cases here
    exact .intro (.call may) (.bottom rfl rfl) (.refl _)
  have closed : (Region.call settings m home).Closed := Region.closed_call hosting mem
  have first : (m.step settings program).Inside (Region.call settings m home) :=
    inside.step closed rfl fun done => by
      rw [here] at done
      cases done
  refine (first.spans closed rfl (fun m' behind _ same => ?_) spans).within
  have longer := behind.length_le
  rw [same] at longer
  exact Nat.not_succ_le_self _ longer

/-- The region of a statement: it looks at everything, and comes to the statements behind it. -/
def Region.statement (settings : Settings) (m : Machine) (rest : List (Node Label)) (inner : Env) :
    Region :=
  ⟨m.world.store, fun _ => True, settings.loops, .ending, .rest rest inner :: m.frames⟩

/-- A part of a run that is confined up to the statements behind, and comes to leave them. -/
inductive Machine.Ending (R : Region) (m : Machine) : Step → Prop where
  | inside {step : Step} (inside : step.Inside R) : Ending R m step
  | left {m' : Machine} (within : m'.world.store.Within R) (away : m'.frames = m.frames) :
      Ending R m (.next m')

/-- Until it ends, a statement that is no declaration leaves the names of all blocks. -/
theorem Machine.statement_leaves {statement : Node Label} {rest : List (Node Label)} {inner : Env}
    (here : m.control = .execute (statement :: rest) inner)
    (other : ∀ label name typeName value, statement ≠ .declaration label name typeName value)
    (spans : m.Under settings program (.rest rest inner) last) :
    last.world.store.Within (Region.statement settings m rest inner) := by
  have ending : m.Ending (Region.statement settings m rest inner) last := by
    induction spans with
    | first =>
      refine .inside ?_
      obtain ⟨control, K, calls, w⟩ := m
      cases here
      have start : Situation.Inside
          (Region.statement settings ⟨.execute (statement :: rest) inner, K, calls, w⟩ rest inner)
          .ending ⟨settings, program, .rest rest inner :: K, calls, w⟩ :=
        ⟨.bottom rfl rfl, .refl _, rfl⟩
      exact start.executeOne (fun _ _ _ => trivial) fun label name typeName value same =>
        (other _ _ _ _ same).elim
    | @later m' _ still ih =>
      cases ih with
      | left _ away =>
        have longer := still.length_le
        rw [away] at longer
        exact (Nat.not_succ_le_self _ longer).elim
      | inside inside =>
        have closed : (Region.statement settings m rest inner).Closed :=
          Region.closed_of_near fun _ => trivial
        by_cases busy : m'.control.isSettled = true ∧ m'.frames = .rest rest inner :: m.frames
        · obtain ⟨done, above⟩ := busy
          have arrives := Machine.Inside.arrives inside above
          have same : (m'.step settings program).world = m'.world := world_of_ending arrives done
          obtain ⟨control, _, calls, w⟩ := m'
          cases above
          cases arrives with
          | execute => cases done
          | ended | leave => exact .left inside.within rfl
        · exact .inside (Machine.Inside.step inside closed rfl fun done above => busy ⟨done, above⟩)
  cases ending with
  | inside inside => exact inside.within
  | left within => exact within

/-- A statement is a declaration, and a block is one with its name and otherwise as before. -/
def Node.Declares (found : Annotations) (statement : Node Label) (b b' : Block) : Prop :=
  ∃ label name typeName value key n, statement = .declaration label name typeName value ∧
    name.key? = some key ∧ b' = b.declare key ((found.of label).binding.map (·.id)) n

/-- The blocks that there were have the names that they had, but that a statement may have declared
one in its own. -/
def Store.Names (found : Annotations) (statement : Node Label) (inner : Env) (s s' : Store) :
    Prop :=
  ∀ b < s.blocks.size, s'.block b = s.block b ∨
    b = inner.block ∧ statement.Declares found (s.block b) (s'.block b)

theorem Store.names_add {found : Annotations} {label : Label} {name typeName : Json}
    {value : Node Label} {inner : Env} {s s' : Store} {key : Key} (isName : name.key? = some key)
    (grown : s.blocks.size ≤ s'.blocks.size) (same : ∀ b < s.blocks.size, s'.block b = s.block b)
    (x : Variable) : s.Names found (.declaration label name typeName value) inner
      (s'.add inner key x ((found.of label).binding.map (·.id))) := by
  intro b old
  by_cases here : b = inner.block
  · subst here
    refine .inr ⟨rfl, label, name, typeName, value, key, s'.vars.size, rfl, isName, ?_⟩
    rw [← same inner.block old]
    exact (block_add (Nat.lt_of_lt_of_le old grown)).trans (if_pos rfl)
  · rw [← same b old]
    exact .inl (block_add_other here)

/-- The region of the value of a declaration. -/
def Region.declared (settings : Settings) (m : Machine) (label : Label) (name : Json)
    (rest : List (Node Label)) (inner : Env) : Region :=
  .value settings m.world.store (.declaration label name inner :: .rest rest inner :: m.frames)

/-- A declaration gets its value, and has then made its name. -/
inductive Machine.Declaring (program : Annotated) (m : Machine) (statement : Node Label)
    (rest : List (Node Label)) (inner : Env) (R : Region) : Step → Prop where
  | value {step : Step} (inside : step.Inside R) : Declaring program m statement rest inner R step
  | made {step : Step}
      (names : m.world.store.Names program.found statement inner step.world.store)
      (on : step.Goes fun m' => m'.control = .ended ∧ m'.frames = .rest rest inner :: m.frames ∨
        m'.frames = m.frames) : Declaring program m statement rest inner R step

/-- The value of a declaration is there. -/
theorem Machine.declaring_resume {label : Label} {name typeName : Json} {value : Node Label}
    {rest : List (Node Label)} {inner : Env} {v : Value} {calls : Nat} {w : World} {R : Region}
    (within : w.store.Within (.declared settings m label name rest inner)) :
    m.Declaring program (.declaration label name typeName value) rest inner R
      (Situation.resume ⟨settings, program, .rest rest inner :: m.frames, calls, w⟩ v
        (.declaration label name inner)) := by
  have made : (Situation.resume ⟨settings, program, .rest rest inner :: m.frames, calls, w⟩ v
      (.declaration label name inner)).Ends (m.world.store.Names program.found
        (.declaration label name typeName value) inner) := by
    refine ends_require (fun b old => .inl (within.names b old)) fun key isName => ?_
    refine ends_notingText (s := Situation.withWorld _ _) ?_ fun _ _ made => made
    exact Store.names_add (key_ok.1 isName) within.blocks within.names _
  refine .made made (goes_require fun key _ => ?_)
  exact goes_notingText (s := Situation.withWorld _ _) fun _ _ => Or.inl ⟨rfl, rfl⟩

/-- Until it ends, a declaration makes no name but its own. -/
theorem Machine.declaration_leaves {label : Label} {name typeName : Json} {value : Node Label}
    {rest : List (Node Label)} {inner : Env}
    (here : m.control = .execute (.declaration label name typeName value :: rest) inner)
    (spans : m.Under settings program (.rest rest inner) last) :
    m.world.store.Names program.found (.declaration label name typeName value) inner
      last.world.store := by
  have declaring : m.Declaring program (.declaration label name typeName value) rest inner
      (.declared settings m label name rest inner) last := by
    induction spans with
    | first =>
      refine .value ?_
      obtain ⟨control, K, calls, w⟩ := m
      cases here
      have start : Situation.Inside (.declared settings
          ⟨.execute (.declaration label name typeName value :: rest) inner, K, calls, w⟩
          label name rest inner) .value
          ⟨settings, program, .declaration label name inner :: .rest rest inner :: K, calls, w⟩ :=
        ⟨.bottom rfl rfl, .refl _, rfl⟩
      refine start.go ?_
      split
      · exact .value
      · exact .evaluate fun _ _ _ => trivial
    | @later m' _ still ih =>
      obtain ⟨control, K, calls, w⟩ := m'
      cases ih with
      | made names on =>
        rcases on with ⟨ended, above⟩ | away
        · cases ended
          cases above
          exact .made names (Or.inr rfl)
        · have longer := still.length_le
          rw [away] at longer
          exact (Nat.not_succ_le_self _ longer).elim
      | value inside =>
        have closed : (Region.declared settings m label name rest inner).Closed :=
          Region.closed_value
        by_cases busy : control.isSettled = true ∧
            K = .declaration label name inner :: .rest rest inner :: m.frames
        · obtain ⟨done, rfl⟩ := busy
          have arrives := Machine.Inside.arrives inside rfl
          cases arrives with
          | evaluate | call => cases done
          | value => exact declaring_resume inside.within
        · exact .value (Machine.Inside.step inside closed rfl fun done above => busy ⟨done, above⟩)
  cases declaring with
  | value inside => exact fun b old => .inl (inside.within.names b old)
  | made names => exact names

/-- A program that is called leaves all names. -/
theorem Machine.main_leaves {inner : Env} (here : m.control = .main inner) (bare : m.frames = [])
    (spans : m.Spans settings program (fun _ => True) last) :
    last.world.store.Within (.value settings m.world.store []) := by
  obtain ⟨control, K, calls, w⟩ := m
  cases here
  cases bare
  have closed : (Region.value settings w.store []).Closed := Region.closed_value
  have inside : last.Inside (.value settings w.store []) := by
    induction spans with
    | first =>
      simp only [Machine.step]
      split
      · refine .intro (.call ?_) (.bottom rfl rfl) (.refl _)
        exact fun _ _ _ _ _ _ _ _ _ => trivial
      · exact Store.Within.refl _
    | @later m' _ _ ih =>
      by_cases done : m'.control.isSettled = true ∧ m'.frames = []
      · obtain ⟨control, _, calls, w⟩ := m'
        obtain ⟨done, rfl⟩ := done
        cases control with
        | value | ended | leave => exact Machine.Inside.within ih
        | _ => cases done
      · exact Machine.Inside.step ih closed rfl fun settled bare => done ⟨settled, bare⟩
  exact inside.within

end

/-- In every run of every tree, annotated or not, in any block that programs run in, and to whatever
end: from a call to its end all blocks that there were keep their names, and all but those around
the function, which the run did not make, keep the values of their variables; a statement makes no
name in a block that there was but that of a declaration, in its own block; and from the call of
`main` on the block of the program keeps its names. -/
theorem calls_confined {envs : List Env} {env : Env} {w : World} {settings : Settings}
    {program : Annotated} {past : List Machine} {m : Machine} (hosts : w.store.Hosts envs)
    (mem : env ∈ envs) (run : (Machine.initial env w).Reaches settings program past m) :
    (∀ (k : Nat) (arguments : List Value) (f : Callable) (parameters : List (Declared Label))
      (statements : Node Label) (home : Env) (last : Step), m.control = .call k arguments →
      m.world.store.functions[k]? = some f → f.body = .code parameters statements home →
      m.Under settings program (.activation k) last →
      (∀ b ∈ home.chain, b < w.store.blocks.size) ∧ ∀ b < m.world.store.blocks.size,
        last.world.store.block b = m.world.store.block b ∧
        (b ∉ home.chain → ∀ n, (m.world.store.block b).Has n →
          last.world.store.vars[n]? = m.world.store.vars[n]?)) ∧
    (∀ (statement : Node Label) (rest : List (Node Label)) (inner : Env) (last : Step),
      m.control = .execute (statement :: rest) inner →
      m.Under settings program (.rest rest inner) last →
      m.world.store.Names program.found statement inner last.world.store) ∧
    ∀ (inner : Env) (last : Step), m.control = .main inner →
      m.Spans settings program (fun _ => True) last →
      inner = env ∧ env.block < m.world.store.blocks.size ∧
        last.world.store.block env.block = m.world.store.block env.block := by
  have before := hosts.hosting
  have hosting := run.hosting mem before
  refine ⟨fun k arguments f parameters statements home last here known body spans => ?_,
    fun statement rest inner last here spans => ?_, fun inner last here spans => ?_⟩
  · have within := Machine.call_leaves hosting here known body spans
    obtain ⟨hosted, -⟩ := hosting.homes k f parameters statements home known body
    refine ⟨before.opened home hosted, fun b old => ⟨within.names b old, fun far n has => ?_⟩⟩
    refine within.values n (hosting.known b n has) fun b' near has' => far ?_
    rw [hosting.apart b b' n has has']
    exact near
  · by_cases declares : ∃ label name typeName value,
      statement = .declaration label name typeName value
    · obtain ⟨label, name, typeName, value, rfl⟩ := declares
      exact Machine.declaration_leaves here spans
    · have within := Machine.statement_leaves here
        (fun label name typeName value same => declares ⟨label, name, typeName, value, same⟩) spans
      exact fun b old => .inl (within.names b old)
  · obtain ⟨rfl, bare⟩ := run.prelude.control inner (by rw [here]; rfl)
    have room := hosting.opened inner mem _ List.mem_cons_self
    exact ⟨rfl, room, (Machine.main_leaves here bare spans).names _ room⟩

/-- A program whose `main` calls a function while both have a variable of the same name. -/
def Program.namesakes : Program :=
  ⟨[], [⟨"f", [⟨"n", "Integer"⟩], some "Integer",
      [.declaration "mine" none (some (.access "n" none)), .ret (.access "mine" none)]⟩,
    ⟨"main", [], some "Integer",
      [.declaration "mine" none (some (.literal (.integer 1))),
        .ret (.call "f" [.literal (.integer 2)])]⟩]⟩

/-- When the call has come to a value, the block of the caller and the variable in it are as they
were before. -/
theorem calls_confined_namesakes :
    let store := (Session.start.place .fresh).1.store
    let program := Program.namesakes.toNode.annotated #[]
    store.Hosts [⟨1, []⟩, ⟨0, []⟩] ∧
    ∃ (past : List Machine) (m m' : Machine),
      (Machine.initial ⟨1, []⟩ { store := store }).Reaches {} program past m ∧
      m.control = .call 2 [.integer 2] ∧ m.Under {} program (.activation 2) (.next m') ∧
      m'.control = .value (.integer 2) ∧ m'.frames.length = m.frames.length ∧
      (m.world.store.block 2).vars.lookup (.text "mine") = some 0 ∧
      m'.world.store.block 2 = m.world.store.block 2 ∧
      m'.world.store.vars[0]? = m.world.store.vars[0]? := by
  intro store program
  have hosts : store.Hosts [⟨1, []⟩, ⟨0, []⟩] := .standard (.standard .start)
  have run : (Machine.initial ⟨1, []⟩ { store := store }).Reaches {} program []
    (Machine.initial ⟨1, []⟩ { store := store }) := .start
  iterate 15 replace run := run.step (show Machine.step _ _ _ = .next _ by cbv)
  have start {past : List Machine} {m : Machine}
      (_ : (Machine.initial ⟨1, []⟩ { store := store }).Reaches {} program past m) :
      m.Under {} program (.activation 2) (m.step {} program) := .first
  have under := start run
  rw [show Machine.step _ _ _ = .next _ by cbv] at under
  iterate 9
    replace under := under.later (by
      repeat first
        | exact List.suffix_rfl
        | refine List.IsSuffix.trans ?_ (List.suffix_cons _ _))
    rw [show Machine.step _ _ _ = .next _ by cbv] at under
  have kept := (calls_confined hosts List.mem_cons_self run).1 _ _ _ _ _ _ _ rfl rfl rfl under
  obtain ⟨same, values⟩ := kept.2 2 (by decide)
  exact ⟨hosts, _, _, _, run, rfl, under, rfl, rfl, rfl, same,
    values (by decide) 0 (Or.inl ⟨.text "mine", rfl⟩)⟩

end PlcLang
