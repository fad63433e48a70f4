import Mathlib
import PlcLang.Proofs.Agreement
import PlcLang.Proofs.Isolation.History
import PlcLang.Proofs.Relocation.Machine
import PlcLang.Tree.Program

namespace PlcLang

/-- A value whose lists come behind others. -/
def Value.behind (lists : Nat) : Value → Value
  | .list address => .list (lists + address)
  | v => v

def Variable.behind (lists : Nat) (x : Variable) : Variable :=
  { x with value := x.value.behind lists }

/-- What is seen of a fault: the cause of a problem and the node it points at, whatever the labels
are. -/
def Fault.seen : Fault → Cause × Option (Node Unit) ⊕ Fault
  | .problem p => .inl (p.cause, p.subject.map Node.plain)
  | f => .inr f

/-- What is seen of a function: how it is called, and of one that a program has, its parameters and
statements and whether it stands in a block. -/
structure Offer where
  name : Json
  arity : Nat
  parameters : List Ty
  returns : Option Ty
  code : Option (List (Declared Unit) × Node Unit × Bool)

def Callable.offer (env : Env) (f : Callable) : Offer where
  name := f.name
  arity := f.arity
  parameters := f.parameters
  returns := f.returns
  code := match f.body with
    | .print => none
    | .code parameters statements home =>
      some (parameters.map (Declared.map fun _ => ()), statements.plain, home = env)

/-- The variables of a block, in the order of their names. -/
def Store.globals (s : Store) (env : Env) : List (Key × Option Variable) :=
  (s.block env.block).vars.map fun (key, n) => (key, s.vars[n]?)

/-- The functions of a block, in the order of their names. -/
def Store.offers (s : Store) (env : Env) : List ((Key × Nat) × Option Offer) :=
  (s.block env.block).functions.map fun (key, n) => (key, s.functions[n]?.map (Callable.offer env))

/-- The second ending is like the first: it prints and notes the same and comes to the same value
or fault, and its block has the same variables with the same values, and the same functions. Only
the lists that it makes come behind so many others; their elements are the same. -/
inductive Ending.Like (lists : Nat) : Ending → Ending → Prop where
  | rejected {f f' : Fault} (seen : f'.seen = f.seen) : Like lists (.rejected f) (.rejected f')
  | unfinished : Like lists .unfinished .unfinished
  | ran {env env' : Env} {w w' : World} {result result' : Except Fault Value}
      (output : w'.output = w.output) (notes : w'.notes = w.notes)
      (results : result'.mapError Fault.seen =
        (result.map (Value.behind lists)).mapError Fault.seen)
      (globals : w'.store.globals env' =
        (w.store.globals env).map (Prod.map id (Option.map (Variable.behind lists))))
      (offers : w'.store.offers env' = w.store.offers env)
      (elements : ∀ address : Nat, w'.store.lists[lists + address]? =
        w.store.lists[address]?.map fun items => items.map (Value.behind lists)) :
      Like lists (.ran env w result) (.ran env' w' result')

def Ending.relocate (r : Relocation) : Ending → Ending
  | .rejected f => .rejected (f.relocate r)
  | .ran env w result =>
    .ran (env.relocate r) (w.relocate r) (r.result (Value.relocate r) result)
  | .unfinished => .unfinished

section

variable {r : Relocation}

theorem Value.relocate_eq (v : Value) : v.relocate r = v.behind r.base.lists.size := by
  cases v <;> rfl

theorem Fault.seen_relocate (f : Fault) : (f.relocate r).seen = f.seen := by
  cases f with
  | problem p =>
    obtain ⟨cause, subject⟩ := p
    cases subject with
    | none => rfl
    | some n => exact congrArg (fun m => Sum.inl (cause, some m)) (n.plain_map r.label)
  | _ => rfl

theorem Env.relocate_injective (r : Relocation) : Function.Injective (Env.relocate r) := by
  intro a b same
  cases a
  cases b
  simp only [Env.relocate, Env.mk.injEq, Nat.add_left_cancel_iff] at same
  obtain ⟨rfl, outer⟩ := same
  rw [(List.map_inj_right fun _ _ => Nat.add_left_cancel).1 outer]

theorem Callable.offer_relocate (env : Env) (f : Callable) :
    (f.relocate r).offer (env.relocate r) = f.offer env := by
  obtain ⟨name, arity, types, returns, body⟩ := f
  cases body with
  | print => rfl
  | code parameters statements home =>
    have home : (home.relocate r = env.relocate r) = (home = env) :=
      propext (Env.relocate_injective r).eq_iff
    simp only [offer, relocate, Body.relocate, List.map_map, Node.plain_map, home]
    rfl

theorem Store.globals_relocate (s : Store) (env : Env) :
    (s.relocate r).globals (env.relocate r) =
      (s.globals env).map (Prod.map id (Option.map (Variable.relocate r))) := by
  simp only [globals, Env.relocate, block_relocate, Block.relocate, List.map_map]
  refine List.map_congr_left fun entry _ => ?_
  exact congrArg (Prod.mk entry.1) (getElem?_behind ..)

theorem Store.offers_relocate (s : Store) (env : Env) :
    (s.relocate r).offers (env.relocate r) = s.offers env := by
  have block : (s.relocate r).block (env.relocate r).block = (s.block env.block).relocate r :=
    block_relocate env.block
  simp only [offers, block, Block.relocate, List.map_map]
  refine List.map_congr_left fun entry _ => ?_
  have known : (s.relocate r).functions[r.base.functions.size + entry.2]? =
      s.functions[entry.2]?.map (Callable.relocate r) := getElem?_behind ..
  simp only [Function.comp_apply, Prod.map, known, Option.map_map, id]
  exact congrArg (Prod.mk entry.1 ∘ (Option.map · _)) (funext (Callable.offer_relocate env))

/-- Endings with other identities are like each other, if one makes its lists behind no others. -/
theorem Ending.like_relocate {r' : Relocation} (none : r.base.lists.size = 0) (ending : Ending) :
    Ending.Like r'.base.lists.size (ending.relocate r) (ending.relocate r') := by
  have same (v : Value) : v.relocate r = v := by
    rw [v.relocate_eq, none]
    cases v with
    | list address => exact congrArg Value.list (Nat.zero_add address)
    | _ => rfl
  have value (v : Value) : v.relocate r' = (v.relocate r).behind r'.base.lists.size := by
    rw [same, v.relocate_eq]
  cases ending with
  | rejected f => exact .rejected (f.seen_relocate.trans f.seen_relocate.symm)
  | unfinished => exact .unfinished
  | ran env w result =>
    refine .ran rfl rfl ?_ ?_ ?_ fun address => ?_
    · cases result with
      | ok v => exact congrArg Except.ok (value v)
      | error f => exact congrArg Except.error (f.seen_relocate.trans f.seen_relocate.symm)
    · simp only [World.relocate, Store.globals_relocate, List.map_map]
      refine List.map_congr_left fun entry _ => ?_
      simp only [Function.comp_apply, Prod.map, id, Option.map_map]
      refine congrArg (Prod.mk entry.1) (congrArg (Option.map · entry.2) (funext fun x => ?_))
      simp only [Function.comp_apply, Variable.relocate, Variable.behind, value]
    · simp only [World.relocate, Store.offers_relocate]
    · have first := getElem?_behind (fun items => items.map (Value.relocate r)) r.base.lists
        w.store.lists address
      have second := getElem?_behind (fun items => items.map (Value.relocate r')) r'.base.lists
        w.store.lists address
      rw [none, Nat.zero_add] at first
      refine second.trans ?_
      refine Eq.trans ?_ (congrArg (Option.map _) first.symm)
      rw [Option.map_map]
      refine congrArg (Option.map · w.store.lists[address]?) (funext fun items => ?_)
      simp only [Function.comp_apply, Array.map_map]
      exact congrArg (Array.map · items) (funext value)

/-- A block with the built-in functions is new wherever it is opened. -/
theorem Store.openStandard_relocate (r : Relocation) :
    r.base.openStandard = ((({} : Store).openStandard).1.relocate r,
      (({} : Store).openStandard).2.relocate r) := by
  have opened : r.base.openRoot =
      (({} : Store).openRoot.1.relocate r, ({} : Store).openRoot.2.relocate r) := by
    have base : ({} : Store).relocate r = r.base := by
      simp only [relocate, Lists.relocate, Array.map_empty, Array.append_empty]
    rw [← base]
    exact openRoot_relocate
  rw [openStandard, opened]
  exact Prod.ext (addStandard_relocate ..) rfl

theorem Ending.ofRun_relocate (env : Env) (run : Option (World × Except Fault Value)) :
    Ending.ofRun (env.relocate r)
        (run.map (Prod.map (World.relocate r) (r.result (Value.relocate r)))) =
      (Ending.ofRun env run).relocate r := by
  cases run <;> rfl

end

/-- A program about to run where nothing else has been. -/
def Machine.first : Machine :=
  .initial ({} : Store).openStandard.2 { store := ({} : Store).openStandard.1 }

/-- A program is analyzed and then run in a session of its own. -/
def Node.afresh (settings : Settings) (steps : Nat) (n : Node Unit) : Ending :=
  let (s, tree) := Session.start.load n
  ((s.analyze tree).1.perform settings steps .fresh false tree).2

section

variable {s : Session} {sources analyzed : List Source} {source : Source} {n : Node Unit}
  {settings : Settings} {steps : Nat}

theorem Source.of_beyond (source : Source) {l : Nat} (beyond : ¬ l < source.size) :
    source.program.checked.found.of l = {} := by
  have inside : (Source.mk source.program 0).bound ≤
      (Session.start.load source.program).1.found.size :=
    Nat.le_of_eq (source.program.size_annotated #[]).symm
  have follows := (analyze_follows inside (Nat.le_refl _) {}).2
  have outside : ¬ l < source.program.checked.found.size := by
    rw [← follows.room, follows.size]
    exact mt (spread_lt inside (Nat.le_refl _) l).1 beyond
  rw [Annotations.of, Array.getElem?_eq_none (Nat.le_of_not_lt outside)]
  rfl

/-- What a session knows of an analyzed program is what is known of it on its own. -/
theorem Session.Keeps.carries (keeps : s.Keeps sources analyzed) (mem : source ∈ analyzed) :
    ∃ r : Relocation, r.base = s.store ∧
      r.Carries source.program.checked ⟨source.tree, s.found⟩ := by
  obtain ⟨taken, number, known⟩ := keeps.known source mem
  refine ⟨source.relocation number s.found.size s.store, rfl,
    source.tree_relocate number s.found.size s.store, fun l => ?_⟩
  by_cases lt : l < source.size
  · have here : (source.relocation number s.found.size s.store).label l = source.first + l :=
      if_pos lt
    rw [here, known _ s.store (Nat.le_refl _) l lt]
    rfl
  · have outside : ¬ (source.relocation number s.found.size s.store).label l < s.found.size :=
      mt (spread_lt (keeps.inside source taken) (Nat.le_refl _) l).1 lt
    rw [source.of_beyond lt, Annotations.of, Array.getElem?_eq_none (Nat.le_of_not_lt outside)]
    rfl

theorem perform_fresh (s : Session) (settings : Settings) (steps : Nat) (tree : Node Label) :
    (s.perform settings steps .fresh false tree).2 =
      .ofRun s.store.openStandard.2 (Machine.run settings ⟨tree, s.found⟩ steps
        (.initial s.store.openStandard.2 { store := s.store.openStandard.1 })) :=
  run_ending

/-- A run in a session is the first run there ever was, with other identities. -/
theorem perform_relocate {r : Relocation} {tree : Node Label} (base : r.base = s.store)
    (carries : r.Carries n.checked ⟨tree, s.found⟩) :
    (s.perform settings steps .fresh false tree).2 =
      (Ending.ofRun ({} : Store).openStandard.2
        (Machine.run settings n.checked steps Machine.first)).relocate r := by
  have opened := Store.openStandard_relocate r
  rw [base] at opened
  have starts : Machine.initial s.store.openStandard.2 { store := s.store.openStandard.1 } =
      Machine.first.relocate r := by
    rw [opened]
    rfl
  rw [perform_fresh, starts, Machine.run_relocate carries, ← Ending.ofRun_relocate, opened]

/-- A run of an analyzed program is like one in a session of its own. -/
theorem Session.Keeps.like (keeps : s.Keeps sources analyzed) (mem : source ∈ analyzed) :
    Ending.Like s.store.lists.size (source.program.afresh settings steps)
      (s.perform settings steps .fresh false source.tree).2 := by
  obtain ⟨r, base, carries⟩ := keeps.carries mem
  -- the session of its own has a past, too
  have alone := (Session.Past.start.load source.program).analyze List.mem_cons_self
  obtain ⟨r', base', carries'⟩ := alone.keeps.carries List.mem_cons_self
  have first : source.program.afresh settings steps = _ := perform_relocate base' carries'
  have none : r'.base.lists.size = 0 := by
    rw [base']
    rfl
  rw [first, perform_relocate base carries, ← base]
  exact Ending.like_relocate none _

/-- To analyze a program and run it at once is to do the one and then the other. -/
theorem perform_analyze (s : Session) (tree : Node Label) :
    (s.perform settings steps .fresh true tree).2 =
      match (s.analyze tree).2 with
      | .error f => .rejected f
      | .ok _ => ((s.analyze tree).1.perform settings steps .fresh false tree).2 := by
  have outcome : (s.analyze tree).2 = ((Annotated.mk tree s.found).check s.checks []).1 := rfl
  rw [outcome, Session.perform]
  simp only [↓reduceIte]
  split
  · rename_i f rejected
    have rejected : ((Annotated.mk tree s.found).check s.checks []).1 = .error f := rejected
    rw [rejected]
  · rename_i Γ accepted
    have accepted : ((Annotated.mk tree s.found).check s.checks []).1 = .ok Γ := accepted
    rw [accepted]
    rw [perform_fresh]
    exact run_ending

/-- A program that is accepted runs afresh. -/
theorem perform_afresh : n.perform settings steps true =
    match ((n.annotated #[]).check 0 []).1 with
    | .error f => .rejected f
    | .ok _ => n.afresh settings steps := by
  have afresh : n.afresh settings steps =
      .ofRun freshBlock (Machine.run settings n.checked steps Machine.fresh) := run_ending
  rw [perform_checked]
  cases ((n.annotated #[]).check 0 []).1 with
  | error f => rfl
  | ok Γ => exact afresh.symm

/-- Of a session that has run programs by themselves nothing is seen in a further run of a program
that was analyzed at any time before: it prints and notes the same as a run of the program in a
session of its own, with the same value or fault in the end, the same globals with the same values,
and the same functions. Nor is anything seen of it if the program is analyzed again before it is
run. Only the lists of the run come behind those that the session had made. -/
theorem runs_isolated (past : Session.Past sources analyzed s) (settings : Settings)
    (steps : Nat) :
    (∀ source ∈ analyzed, Ending.Like s.store.lists.size (source.program.afresh settings steps)
      (s.perform settings steps .fresh false source.tree).2) ∧
    ∀ source ∈ sources, Ending.Like s.store.lists.size
      (source.program.perform settings steps true)
      (s.perform settings steps .fresh true source.tree).2 := by
  refine ⟨fun source mem => past.keeps.like mem, fun source mem => ?_⟩
  have outcome := (analyze_follows (past.keeps.inside source mem) (Nat.le_refl _) {}).1
  have later : Ending.Like s.store.lists.size (source.program.afresh settings steps)
      ((s.analyze source.tree).1.perform settings steps .fresh false source.tree).2 :=
    (past.analyze mem).keeps.like List.mem_cons_self
  rw [perform_afresh, perform_analyze, outcome]
  cases ((source.program.annotated #[]).check 0 []).1 with
  | error f => exact .rejected f.seen_relocate
  | ok Γ => exact later

end

/-- A program that adds 1 to the element of a global list, prints it, and fails behind the end of the
list. -/
def Program.failing : Program :=
  let item (n : Int) : Expr := .access "xs" (some (.literal (.integer n)))
  ⟨[⟨"xs", true, "Integer", some (.list [.literal (.integer 1)])⟩],
    [⟨"main", [], some "Integer",
      [.assignment (item 0) (.binary .plus (item 0) (.literal (.integer 1))),
        .expression (.call "print" [item 0]), .ret (item 1)]⟩]⟩

/-- The program is the first that a session takes up. -/
def Source.failing : Source :=
  ⟨Program.failing.toNode, 0⟩

/-- A session in which the program has been analyzed and has failed. -/
def Session.failed : Session :=
  (((start.load Source.failing.program).1.analyze Source.failing.tree).1.perform {} 100 .fresh false
    Source.failing.tree).1

/-- When the program runs again, it prints 2 again: the list of the run before is another. -/
theorem runs_isolated_failing :
    Session.Past [.failing] [.failing] .failed ∧ Session.failed.store.lists = #[#[.integer 2]] ∧
      (∃ f, (Source.failing.program.afresh {} 100).outcome = .ended "2\n" #[] (.error f)
        [(.text "xs", some (.list 0))] #[#[.integer 2]]) ∧
      Ending.Like 1 (Source.failing.program.afresh {} 100)
        (Session.failed.perform {} 100 .fresh false Source.failing.tree).2 ∧
      Ending.Like 1 (Source.failing.program.perform {} 100 true)
        (Session.failed.perform {} 100 .fresh true Source.failing.tree).2 := by
  have past : Session.Past [.failing] [.failing] .failed :=
    ((Session.Past.start.load Source.failing.program).analyze List.mem_cons_self).run
      List.mem_cons_self {} 100
  have lists : Session.failed.store.lists = #[#[.integer 2]] := by cbv
  obtain ⟨again, anew⟩ := runs_isolated past {} 100
  rw [lists] at again anew
  exact ⟨past, lists, ⟨_, by cbv⟩, again _ List.mem_cons_self, anew _ List.mem_cons_self⟩

end PlcLang
