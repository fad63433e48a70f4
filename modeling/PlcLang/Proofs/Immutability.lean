import Mathlib
import PlcLang.Proofs.Assignment.Stages
import PlcLang.Proofs.Confinement.Phases
import PlcLang.Session
import PlcLang.Tree.Program

namespace PlcLang

/-- Blocks from a number on have variables that can change. -/
def Store.MutableFrom (k : Nat) (s : Store) : Prop :=
  ∀ b, k ≤ b → ∀ n, (s.block b).Has n → ∃ x, s.vars[n]? = some x ∧ x.isMutable = true

/-- A variable has the same record as in another store, and is found under the same names. -/
structure Store.Retains (n : Nat) (x : Variable) (s s' : Store) : Prop where
  record : s'.vars[n]? = some x
  names : ∀ b key, (s.block b).vars.lookup key = some n → (s'.block b).vars.lookup key = some n

/-- Globals and functions come to blocks before a number, and what is declared to blocks behind. -/
structure Machine.Apart (k : Nat) (m : Machine) : Prop where
  grown : k ≤ m.world.store.blocks.size
  globals : ∀ g rest functions e K, m.frames = .global g rest functions e :: K → e.block < k
  declarations : ∀ label name e K, m.frames = .declaration label name e :: K → k ≤ e.block
  functions : ∀ f rest e, m.control = .functions (f :: rest) e → e.block < k

namespace Store

variable {s s' : Store} {k n b : Nat} {x y : Variable} {env : Env} {key key' : Key}
  {id : Option DeclId}

theorem mutableFrom_self (s : Store) : s.MutableFrom s.blocks.size := by
  intro b beyond n has
  rw [block_beyond beyond] at has
  exact (Block.not_has_empty n has).elim

theorem lookup_add_other (other : b ≠ env.block ∨ key' ≠ key) :
    ((s.add env key x id).block b).vars.lookup key' = (s.block b).vars.lookup key' := by
  by_cases here : b = env.block
  · by_cases room : env.block < s.blocks.size
    · rw [block_add room, if_pos here]
      simp only [Table.lookup_put]
      rw [if_neg]
      simpa using other.resolve_left (not_not_intro here)
    · have beyond : (s.add env key x id).blocks.size ≤ b := by
        simpa [add, here] using Nat.le_of_not_lt room
      rw [block_beyond beyond, block_beyond (here ▸ Nat.le_of_not_lt room)]
  · rw [block_add_other here]

theorem lookup_add (room : env.block < s.blocks.size) :
    ((s.add env key x id).block env.block).vars.lookup key = some s.vars.size := by
  rw [block_add room, if_pos rfl]
  simp only [Table.lookup_put, beq_self_eq_true, ↓reduceIte]

/-- A variable that can change is added. -/
theorem MutableFrom.add (h : s.MutableFrom k) (loose : k ≤ env.block → x.isMutable = true) :
    (s.add env key x id).MutableFrom k := by
  intro b beyond n has
  rcases has_add has with has | ⟨rfl, rfl⟩
  · obtain ⟨y, known, changes⟩ := h b beyond n has
    have old := (Array.getElem?_eq_some_iff.1 known).1
    exact ⟨y, (getElem?_vars_add old).trans known, changes⟩
  · exact ⟨x, var_add, loose beyond⟩

theorem MutableFrom.openBlock (h : s.MutableFrom k) (env : Env) :
    (s.openBlock env).1.MutableFrom k := by
  intro b beyond n has
  rw [block_openBlock] at has
  exact h b beyond n has

theorem MutableFrom.setValue (h : s.MutableFrom k) (n : Nat) (v : Value) :
    (s.setValue n v).MutableFrom k := by
  intro b beyond i has
  obtain ⟨y, known, changes⟩ := h b beyond i has
  simp only [Store.setValue, Array.getElem?_modify, known, Option.map_some]
  split
  · exact ⟨_, rfl, changes⟩
  · exact ⟨y, rfl, changes⟩

/-- A variable that is added takes no name of an immutable one. -/
theorem Retains.add (h : s.Retains n x s')
    (free : (s'.block env.block).vars.lookup key ≠ some n) :
    s.Retains n x (s'.add env key y id) where
  record := (getElem?_vars_add (Array.getElem?_eq_some_iff.1 h.record).1).trans h.record
  names b key' found := by
    have found := h.names b key' found
    rw [lookup_add_other, found]
    by_cases here : b = env.block
    · subst here
      exact .inr fun same => free (same ▸ found)
    · exact .inl here

/-- An immutable variable is not in the blocks that have others. -/
theorem MutableFrom.other (h : s.MutableFrom k) (known : s.vars[n]? = some x)
    (fixed : x.isMutable = false) (behind : k ≤ b) (key : Key) :
    (s.block b).vars.lookup key ≠ some n := by
  intro found
  obtain ⟨y, known', changes⟩ := h b behind n (.inl ⟨key, found⟩)
  rw [known] at known'
  cases known'
  rw [fixed] at changes
  cases changes

end Store

section

variable {program : Annotated} {m : Machine} {s' : Store} {k n : Nat} {x : Variable}

theorem Machine.Changes.mutableFrom (changes : m.Changes program s') (apart : m.Apart k)
    (h : m.world.store.MutableFrom k) : s'.MutableFrom k := by
  cases changes with
  | nothing => exact h
  | opens env => exact h.openBlock env
  | emptyList | list | stores => exact h
  | declares => exact h.add fun _ => rfl
  | global _ waits =>
    exact h.add fun behind => (Nat.not_le.2 (apart.globals _ _ _ _ _ waits) behind).elim
  | assigns => exact h.setValue _ _
  | @calls _ _ _ _ _ home w _ _ _ same =>
    have opened : (w.store.openBlock home).1.MutableFrom k := by
      rw [same]
      exact h.openBlock home
    exact World.bind_keeps (fun _ _ _ _ h loose => h.add fun _ => loose) opened _ _
  | defines here takes =>
    obtain ⟨_, _, _, _, _, _, _, _, _, _, _, _, defined⟩ := takes
    obtain ⟨-, vars, names⟩ := Store.same_defineFunction defined
    intro b beyond n has
    rw [vars]
    refine h b beyond n ?_
    rw [Block.Has, (names b).1, (names b).2] at has
    exact has

/-- A step leaves immutable variables as they are. -/
theorem Machine.Changes.retains (changes : m.Changes program s') (apart : m.Apart k)
    (loose : m.world.store.MutableFrom k) (known : m.world.store.vars[n]? = some x)
    (fixed : x.isMutable = false) : m.world.store.Retains n x s' := by
  have grown := apart.grown
  have self : m.world.store.Retains n x m.world.store := ⟨known, fun _ _ found => found⟩
  cases changes with
  | nothing => exact self
  | opens env =>
    refine ⟨known, fun b key found => ?_⟩
    rw [Store.block_openBlock]
    exact found
  | emptyList | list | stores => exact ⟨known, fun _ _ found => found⟩
  | declares _ waits =>
    exact self.add (loose.other known fixed (apart.declarations _ _ _ _ waits) _)
  | @global _ _ _ _ _ _ _ _ key env _ _ _ _ free =>
    refine self.add fun found => ?_
    unfold Store.taken Table.has at free
    rw [found] at free
    cases free
  | @assigns v i y _ _ _ _ _ _ _ known' changes =>
    refine ⟨?_, fun _ _ found => found⟩
    have other : i ≠ n := by
      rintro rfl
      rw [known] at known'
      cases known'
      rw [fixed] at changes
      cases changes
    simp only [Store.setValue, Array.getElem?_modify]
    rw [if_neg other, known]
  | @calls _ _ _ _ _ home w _ _ _ same =>
    have entered : m.world.store.Retains n x (w.store.openBlock home).1 ∧
        (w.store.openBlock home).1.MutableFrom k := by
      rw [same]
      refine ⟨⟨known, fun b key found => ?_⟩, loose.openBlock home⟩
      rw [Store.block_openBlock]
      exact found
    have behind : k ≤ (w.openBlock home).2.block := by
      rw [← same] at grown
      exact grown
    refine (World.bind_keeps (P := fun s => m.world.store.Retains n x s ∧ s.MutableFrom k)
      (fun s key y id kept changes => ?_) entered _ _).1
    exact ⟨kept.1.add (kept.2.other kept.1.record fixed behind key), kept.2.add fun _ => changes⟩
  | defines here takes =>
    obtain ⟨_, _, _, _, _, _, _, _, _, _, _, _, defined⟩ := takes
    obtain ⟨-, vars, names⟩ := Store.same_defineFunction defined
    refine ⟨vars ▸ known, fun b key found => ?_⟩
    rw [(names b).1]
    exact found

/-- An immutable variable comes to be as a global, and is found under its name. -/
theorem Machine.Changes.makes (changes : m.Changes program s') (apart : m.Apart k)
    (new : m.world.store.vars.size ≤ n) (known : s'.vars[n]? = some x)
    (fixed : x.isMutable = false) :
    ∃ label typeName value rest functions env K key, m.control = .value x.value ∧
      m.frames = .global (.global label x.name false typeName value) rest functions env :: K ∧
      x.name.key? = some key ∧ (s'.block env.block).vars.lookup key = some n := by
  have old : m.world.store.vars[n]? ≠ some x := fun there =>
    Nat.not_lt.2 new (Array.getElem?_eq_some_iff.1 there).1
  -- a variable more is behind the others
  have added {s : Store} {env : Env} {key : Key} {y : Variable} {id : Option DeclId}
      (known : (s.add env key y id).vars[n]? = some x) :
      s.vars[n]? = some x ∨ n = s.vars.size ∧ x = y := by
    simp only [Store.add, Array.getElem?_push] at known
    split at known
    · rename_i last
      exact .inr ⟨last, (Option.some.inj known).symm⟩
    · exact .inl known
  cases changes with
  | nothing | opens | emptyList | list | stores => exact (old known).elim
  | declares =>
    rcases added known with there | ⟨_, rfl⟩
    · exact (old there).elim
    · cases fixed
  | @global v label name typeName isMutable value functions rest key env K here waits isName =>
    rcases added known with there | ⟨rfl, rfl⟩
    · exact (old there).elim
    · cases fixed
      refine ⟨label, typeName, value, rest, functions, env, K, key, here, waits, key_ok.1 isName,
        ?_⟩
      exact Store.lookup_add (Nat.lt_of_lt_of_le (apart.globals _ _ _ _ _ waits) apart.grown)
  | @assigns v i =>
    have inside := (Array.getElem?_eq_some_iff.1 known).1
    simp only [Store.setValue, Array.size_modify] at inside
    exact (Nat.not_lt.2 new inside).elim
  | @calls _ _ _ _ _ home w _ _ _ same =>
    have opened : (w.openBlock home).1.store.vars[n]? ≠ some x := by
      rw [← same] at old
      exact old
    refine (World.bind_keeps (P := fun s => s.vars[n]? ≠ some x)
      (fun s key y id kept changes known => ?_) opened _ _ known).elim
    rcases added known with there | ⟨_, rfl⟩
    · exact kept there
    · rw [fixed] at changes
      cases changes
  | defines here takes =>
    obtain ⟨_, _, _, _, _, _, _, _, _, _, _, _, defined⟩ := takes
    rw [(Store.same_defineFunction defined).2.1] at known
    exact (old known).elim

end

section

variable {settings : Settings} {program : Annotated} {env : Env} {w : World} {m : Machine}
  {past : List Machine} {n : Nat} {x : Variable} {last : Step}

theorem Machine.Reaches.apart (run : (initial env w).Reaches settings program past m)
    (room : env.block < w.store.blocks.size) : m.Apart w.store.blocks.size where
  grown := run.phase.grown
  globals g rest functions e K waits := by
    have prelude := run.prelude
    rw [waits] at prelude
    obtain ⟨rfl, -⟩ := prelude.frames _ K (List.suffix_refl _) e rfl
    exact room
  declarations _ _ _ _ waits := run.phase.declaration waits
  functions f rest e here := by
    obtain ⟨rfl, -⟩ := run.prelude.control e (by rw [here]; rfl)
    exact room

theorem Machine.Reaches.mutableFrom (run : (initial env w).Reaches settings program past m)
    (room : env.block < w.store.blocks.size) :
    m.world.store.MutableFrom w.store.blocks.size := by
  induction run with
  | start => exact w.store.mutableFrom_self
  | @step past m₁ m₂ before next ih =>
    have step := (m₁.changes settings program).mutableFrom (before.apart room) ih
    rw [next] at step
    exact step

theorem Machine.Reaches.later {kind : Machine → Prop}
    (run : (initial env w).Reaches settings program past m)
    (spans : m.Spans settings program kind last) :
    ∃ past' m', (initial env w).Reaches settings program past' m' ∧
      m'.step settings program = last := by
  induction spans with
  | first => exact ⟨past, m, run, rfl⟩
  | @later m' _ _ ih =>
    obtain ⟨past', m'', run', next⟩ := ih
    exact ⟨_, m', run'.step next, rfl⟩

/-- At all later points of a run, immutable variables are as they were. -/
theorem Machine.Reaches.retains {kind : Machine → Prop}
    (run : (initial env w).Reaches settings program past m)
    (room : env.block < w.store.blocks.size) (known : m.world.store.vars[n]? = some x)
    (fixed : x.isMutable = false) (spans : m.Spans settings program kind last) :
    m.world.store.Retains n x last.world.store := by
  induction spans with
  | first =>
    exact (m.changes settings program).retains (run.apart room) (run.mutableFrom room) known fixed
  | @later m' before _ ih =>
    obtain ⟨_, _, run', next⟩ := run.later before
    have there := run'.step next
    have step := (m'.changes settings program).retains (there.apart room) (there.mutableFrom room)
      ih.record fixed
    exact ⟨step.record, fun b key found => step.names b key (ih.names b key found)⟩

end

/-- An assignment to an immutable variable evaluates its value, and is then refused. -/
theorem Assignment.refuses {a : Assignment} {n : Nat} {offset : Node Label} {x : Variable}
    {last : Step} (receives : a.Receives n offset) (fixed : x.isMutable = false)
    (still : ∀ v m, (a.valuing n offset).Comes a.settings a.program v m →
      m.world.store.vars[n]? = some x)
    (under : a.start.Under a.settings a.program (.rest a.rest a.inner) last) :
    (a.valuing n offset).Works a.settings a.program last ∨
      ∃ v m, (a.valuing n offset).Comes a.settings a.program v m ∧ last = .halt m.world
        (.error (.ofCause (.immutable x.name) (some (.assignment a.receiver a.value)))) := by
  -- every variable that is found when the value is there is this one
  have same {n' : Nat} {offset' : Node Label} {v : Value} {m : Machine} {y : Variable}
      (valued : a.Valued n' offset' v m y) :
      (a.valuing n offset).Comes a.settings a.program v m ∧ y = x := by
    obtain ⟨again, comes, known⟩ := valued
    obtain ⟨rfl, rfl⟩ := receives.unique again
    exact ⟨comes, Option.some.inj (known.symm.trans (still v m comes))⟩
  have loose {n' : Nat} {offset' : Node Label} {v : Value} {m : Machine} {y : Variable}
      (valued : a.Valued n' offset' v m y) (changes : y.isMutable = true) : False := by
    obtain ⟨-, rfl⟩ := same valued
    rw [fixed] at changes
    cases changes
  have listless {n' list : Nat} {offset' : Node Label} {v : Value} {m : Machine}
      (selects : a.Selects n' offset' v m list) : False := by
    obtain ⟨⟨y, valued, changes, -⟩, -⟩ := selects
    exact loose valued changes
  have unwritten {w : World} {c : Cell} {v : Value} {m : Machine}
      (assigned : a.Assigned w c v m) : False := by
    cases assigned with
    | whole valued changes => exact loose valued changes
    | element selects => exact listless selects
  cases Assignment.stage under with
  | value again works =>
    obtain ⟨rfl, rfl⟩ := receives.unique again
    exact .inl works
  | offset selects => exact (listless selects).elim
  | assigned assigned => exact (unwritten assigned).elim
  | complete assigned => exact (unwritten assigned).elim
  | refused refused =>
    cases refused with
    | unresolved none => exact (none n offset receives).elim
    | immutable valued =>
      obtain ⟨comes, rfl⟩ := same valued
      exact .inr ⟨_, _, comes, rfl⟩
    | noList valued changes => exact (loose valued changes).elim
    | noElement selects => exact (listless selects).elim

/-- In every run of every tree, annotated or not, in a block that there is: an immutable variable
has the record that it has, and is found under the names that it has, at every later point, whatever
the run comes to; it comes to be with the value of a global, and is found under its name in the block of
the program; and an assignment whose receiver stands for it does nothing but evaluate its value and,
once that is there, end the run with an error for immutable variables. -/
theorem immutables_kept {env : Env} {w : World} {settings : Settings} {program : Annotated}
    {past : List Machine} {m : Machine} (room : env.block < w.store.blocks.size)
    (run : (Machine.initial env w).Reaches settings program past m) :
    (∀ (n : Nat) (x : Variable), m.world.store.vars[n]? = some x → x.isMutable = false →
      ∀ last, m.Spans settings program (fun _ => True) last →
        m.world.store.Retains n x last.world.store) ∧
    (∀ (n : Nat) (x : Variable), m.world.store.vars.size ≤ n →
      (m.step settings program).world.store.vars[n]? = some x → x.isMutable = false →
      ∃ label typeName value rest functions K key, m.control = .value x.value ∧
        m.frames = .global (.global label x.name false typeName value) rest functions env :: K ∧
        x.name.key? = some key ∧
        ((m.step settings program).world.store.block env.block).vars.lookup key = some n) ∧
    ∀ (receiver value : Node Label) (rest : List (Node Label)) (inner : Env)
      (begins : m.control = .execute (.assignment receiver value :: rest) inner)
      (a : Assignment), a = ⟨settings, program, m, receiver, value, rest, inner, begins⟩ →
      ∀ (n : Nat) (offset : Node Label) (x : Variable), a.Receives n offset →
        m.world.store.vars[n]? = some x → x.isMutable = false →
        ∀ last, m.Under settings program (.rest rest inner) last →
          (a.valuing n offset).Works settings program last ∨
          ∃ v m', (a.valuing n offset).Comes settings program v m' ∧ last = .halt m'.world
            (.error (.ofCause (.immutable x.name) (some (.assignment receiver value)))) := by
  refine ⟨fun n x known fixed last spans => run.retains room known fixed spans,
    fun n x new known fixed => ?_,
    fun receiver value rest inner begins a same n offset x receives known fixed last under => ?_⟩
  · obtain ⟨label, typeName, value, rest, functions, e, K, key, here, waits, isName, found⟩ :=
      (m.changes settings program).makes (run.apart room) new known fixed
    have prelude := run.prelude
    rw [waits] at prelude
    obtain ⟨rfl, -⟩ := prelude.frames _ K (List.suffix_refl _) e rfl
    exact ⟨label, typeName, value, rest, functions, K, key, here, waits, isName, found⟩
  · subst same
    refine Assignment.refuses receives fixed (fun v m' comes => ?_) under
    have begun : m.Spans settings program (fun _ => True) (m.step settings program) := .first
    rw [receives.step] at begun
    exact (run.retains room known fixed (comes.works.spans begun)).record

/-- A program that assigns to an immutable global. -/
def Program.frozen : Program :=
  ⟨[⟨"c", false, "Integer", some (.literal (.integer 1))⟩],
    [⟨"main", [], none, [.assignment (.access "c" none) (.literal (.integer 2))]⟩]⟩

/-- The run ends when the value is there, and the global is as it was. -/
theorem immutables_kept_frozen :
    let store := (Session.start.place .fresh).1.store
    let program := Program.frozen.toNode.annotated #[]
    let c : Variable := ⟨.string "c", none, false, .integer 1⟩
    1 < store.blocks.size ∧ ∃ (past : List Machine) (m : Machine) (w : World) (f : Fault)
      (rest : List (Node Label)) (inner : Env),
      (Machine.initial ⟨1, []⟩ { store := store }).Reaches {} program past m ∧
      m.Under {} program (.rest rest inner) (.halt w (.error f)) ∧
      m.world.store.vars[0]? = some c ∧ m.world.store.Retains 0 c w.store ∧
      ∃ a : Assignment, a.start = m ∧ a.Receives 0 .absent ∧
        ((a.valuing 0 .absent).Works {} program (.halt w (.error f)) ∨
        ∃ v m', (a.valuing 0 .absent).Comes {} program v m' ∧
          Step.halt w (.error f) = .halt m'.world
            (.error (.ofCause (.immutable (.string "c"))
              (some (.assignment a.receiver a.value))))) := by
  intro store program c
  have room : 1 < store.blocks.size := by decide
  have run : (Machine.initial ⟨1, []⟩ { store := store }).Reaches {} program []
    (Machine.initial ⟨1, []⟩ { store := store }) := .start
  iterate 9 replace run := run.step (show Machine.step _ _ _ = .next _ by cbv)
  have start {past : List Machine} {m : Machine} {rest : List (Node Label)} {inner : Env}
      {statement : Node Label} (_ : m.control = .execute (statement :: rest) inner)
      (_ : (Machine.initial ⟨1, []⟩ { store := store }).Reaches {} program past m) :
      m.Under {} program (.rest rest inner) (m.step {} program) := .first
  have under := start rfl run
  rw [show Machine.step _ _ _ = .next _ by cbv] at under
  replace under := under.later (List.suffix_cons _ _)
  rw [show Machine.step _ _ _ = .next _ by cbv] at under
  replace under := under.later (List.suffix_cons _ _)
  rw [show Machine.step _ _ _ = .halt _ (.error _) by cbv] at under
  obtain ⟨retains, -, refuses⟩ := immutables_kept room run
  have kept := retains 0 c rfl rfl _ (Machine.Spans.mono (fun _ _ => trivial) under)
  refine ⟨room, _, _, _, _, _, _, run, under, rfl, kept, ⟨{}, program, _, _, _, _, _, rfl⟩, rfl,
    ?receives, refuses _ _ _ _ rfl _ rfl 0 .absent c ?receives rfl rfl _ under⟩
  exact ⟨_, _, _, rfl, rfl, rfl⟩

end PlcLang
