import PlcLang.Proofs.Chaining.Ground

namespace PlcLang

/-- What a step leads to has a property, or the run ends with a fault. -/
def Step.Goes (P : Machine → Prop) : Step → Prop
  | .next m => P m
  | .halt _ result => ∃ f, result = .error f

section

variable {P : Machine → Prop} {s : Situation}

theorem goes_fail {f : Fault} : (s.fail f).Goes P :=
  ⟨f, rfl⟩

theorem goes_require {α : Type} {x : Except Fault α} {k : α → Step}
    (hk : ∀ a, x = .ok a → (k a).Goes P) : (s.require x k).Goes P := by
  cases x with
  | error f => exact goes_fail (s := s)
  | ok a => exact hk a rfl

theorem goes_noting {level : Nat} {n : World → Except Fault Note} {k : Situation → Step}
    (hk : ∀ w, w.store = s.world.store → (k (s.withWorld w)).Goes P) :
    (s.noting level n k).Goes P := by
  unfold Situation.noting
  split
  · exact hk s.world rfl
  · exact goes_require fun note _ => hk (s.world.note note) rfl

theorem goes_notingText {level : Nat} {v : Value} {n : String → Note} {k : Situation → Step}
    (hk : ∀ w, w.store = s.world.store → (k (s.withWorld w)).Goes P) :
    (s.notingText level v n k).Goes P :=
  goes_noting hk

theorem goes_requireBoolean {v : Value} {e : Node Label} {k : Bool → Step}
    (hk : ∀ b, (k b).Goes P) : (s.requireBoolean v e k).Goes P := by
  unfold Situation.requireBoolean
  split
  · exact hk _
  · exact goes_fail (s := s)

theorem goes_requireList {v : Value} {e : Node Label} {k : Nat → Step}
    (hk : ∀ n, (k n).Goes P) : (s.requireList v e k).Goes P := by
  unfold Situation.requireList
  split
  · exact hk _
  · exact goes_fail (s := s)

theorem goes_requireIndex {list : Nat} {v : Value} {e : Node Label} {k : Nat → Step}
    (hk : ∀ n, (k n).Goes P) : (s.requireIndex list v e k).Goes P := by
  unfold Situation.requireIndex
  split
  · simp only
    split
    · exact goes_fail (s := s)
    · exact hk _
  · exact goes_fail (s := s)

theorem goes_resolve {env : Env} {binding : Option Binding} {name : Json} {node : Node Label}
    {k : Nat → Variable → Step} (hk : ∀ n v, (k n v).Goes P) :
    (s.resolve env binding name node k).Goes P := by
  unfold Situation.resolve
  split
  · exact goes_fail (s := s)
  · exact goes_fail (s := s)
  · split
    · exact hk _ _
    · exact goes_fail (s := s)

end

section

variable {D : Ground} {bottom : List Frame} {s : Situation} {env : Env} {o : Arrival}

/-- A step goes on with code that answers, or the run ends with a fault. -/
abbrev Step.Stays (D : Ground) (bottom : List Frame) (step : Step) : Prop :=
  step.Goes (Machine.Ready D bottom)

theorem stays_go {control : Control} (next : control.Fits D o)
    (frames : Stack D bottom o s.frames) (on : s.world.store.On D) :
    (s.go control).Stays D bottom :=
  .intro next frames on

theorem stays_await {frame : Frame} {control : Control} {o' : Arrival} (next : control.Fits D o)
    (fits : frame.Fits D o o') (frames : Stack D bottom o' s.frames) (on : s.world.store.On D) :
    (s.await frame control).Stays D bottom :=
  .intro next (.cons fits frames) on

theorem stays_execute {statements : Node Label} (serves : D.Serves env statements)
    (frames : Stack D bottom .ending s.frames) (on : s.world.store.On D) :
    (s.execute statements env).Stays D bottom :=
  goes_require fun _ listed => stays_go (.execute (serves.items listed)) frames on

theorem stays_enter {statements : Node Label} (serves : D.Serves env statements)
    (frames : Stack D bottom .ending s.frames) (on : s.world.store.On D) :
    (s.enter statements env).Stays D bottom :=
  stays_execute (serves.enter on) frames (on.openBlock env)

/-- A call whose arguments have values is one of a function that it may be of. -/
theorem invoke_eq_call {label : Label} {name : Json} {items : List (Node Label)}
    {arguments : List Value} (call : (Node.call label name (.list items)).Answers D env)
    (count : items.length = arguments.length) (on : s.world.store.On D) :
    ∃ key n, name.key? = some key ∧ D.may label key arguments.length n ∧
      ∀ node, s.invoke env name arguments node = s.go (.call n arguments) := by
  obtain ⟨_, key, n, given, isName, found, may⟩ := call
  cases given
  rw [count] at found may
  refine ⟨key, n, isName, may, fun node => ?_⟩
  rw [← on.findFunction] at found
  have named : name.key = .ok key := by rw [Json.key, isName]
  simp only [Situation.invoke, named, Situation.require, Step.require, found]

theorem stays_evaluate {e : Node Label} (serves : D.Serves env e)
    (frames : Stack D bottom .value s.frames) (on : s.world.store.On D) :
    (s.evaluate e env).Stays D bottom := by
  cases e with
  | literal => exact stays_go .value frames on
  | group _ inner => exact stays_go (.evaluate serves.2) frames on
  | binary _ op left right =>
    obtain ⟨-, first, second⟩ := serves
    cases op with
    | and | or => exact stays_await (.evaluate first) (.test second) frames on
    | _ => exact stays_await (.evaluate first) (.left second) frames on
  | access label name offset =>
    refine goes_resolve fun n v => ?_
    split
    · exact stays_go .value frames on
    · exact goes_requireList fun list => stays_await (.evaluate serves.2) .index frames on
  | call label name arguments =>
    obtain ⟨call, below⟩ := serves
    obtain ⟨items, _, _, rfl, _⟩ := id call
    refine goes_require fun items listed => ?_
    cases listed
    cases items with
    | nil =>
      have count : ([] : List (Node Label)).length = ([] : List Value).length := rfl
      obtain ⟨_, n, _, _, go⟩ := invoke_eq_call (s := s) call count on
      rw [go]
      exact stays_go .call frames on
    | cons first rest =>
      have count : (first :: rest).length = ([] : List Value).length + 1 + rest.length := by
        simp only [List.length_cons, List.length_nil]
        omega
      exact stays_await (.evaluate below.2.1) (.argument call count below.2.2) frames on
  | listLiteral _ elements =>
    refine goes_require fun items listed => ?_
    have all := serves.2.items listed
    cases items with
    | nil => exact stays_go .value frames on.setLists
    | cons first rest => exact stays_await (.evaluate all.1) (.element all.2) frames on
  | _ => exact goes_fail (s := s)

theorem stays_executeOne {statement : Node Label} (serves : D.Serves env statement)
    (frames : Stack D bottom .ending s.frames) (on : s.world.store.On D) :
    (s.executeOne statement env).Stays D bottom := by
  cases statement with
  | expressionStmt e => exact stays_await (.evaluate serves.2) .discard frames on
  | declaration label name typeName value =>
    refine stays_await (o := .value) ?_ .declaration frames on
    split
    · exact .value
    · exact .evaluate serves.2
  | assignment receiver value =>
    cases receiver with
    | access label name offset =>
      exact goes_resolve fun n _ =>
        stays_await (.evaluate serves.2.2) (.assignment serves.2.1.2) frames on
    | _ => exact goes_fail (s := s)
  | conditional condition thenStatements elseStatements =>
    obtain ⟨-, test, first, second⟩ := serves
    exact stays_await (.evaluate test) (.branch first second) frames on
  | switch condition cases =>
    exact stays_await (.evaluate serves.2.1) (.subject serves.2.2) frames on
  | loop condition statements =>
    obtain ⟨-, test, body⟩ := serves
    simp only [Situation.executeOne]
    cases s.settings.loops with
    | shared =>
      exact stays_await (.evaluate (test.enter on)) (.condition (test.enter on) (body.enter on))
        frames (on.openBlock env)
    | perRound => exact stays_await (.evaluate test) (.condition test body) frames on
  | ret value => exact stays_await (.evaluate serves.2) .result frames on
  | _ => exact goes_fail (s := s)

theorem stays_executeAll {statements : List (Node Label)} (serves : D.ServesAll env statements)
    (frames : Stack D bottom .ending s.frames) (on : s.world.store.On D) :
    (s.executeAll statements env).Stays D bottom := by
  cases statements with
  | nil => exact stays_go .ended frames on
  | cons first rest =>
    exact stays_executeOne (s := s.behind (.rest rest env)) serves.1
      (.cons (.rest serves.2) frames) on

theorem stays_take {subject : Value} {reason : String} {branch : Node Label}
    (serves : D.Serves env branch) (frames : Stack D bottom .ending s.frames)
    (on : s.world.store.On D) : (s.take subject reason branch env).Stays D bottom := by
  refine goes_notingText fun w same => ?_
  rw [← same] at on
  cases branch with
  | case value statements => exact stays_enter (s := s.withWorld w) serves.2.2 frames on
  | _ => exact goes_fail (s := s.withWorld w)

theorem stays_select {subject : Value} {cases : List (Node Label)}
    (default : Option (Node Label)) (fallback : ∀ b ∈ default, D.Serves env b)
    (each : D.ServesAll env cases) (frames : Stack D bottom .ending s.frames)
    (on : s.world.store.On D) : (s.select subject default env cases).Stays D bottom := by
  induction cases generalizing default with
  | nil =>
    cases default with
    | none => exact stays_go .ended frames on
    | some branch => exact stays_take (fallback branch rfl) frames on
  | cons branch rest ih =>
    simp only [Situation.select]
    split
    · exact goes_fail (s := s)
    · refine ih _ (fun b hb => ?_) each.2
      cases hb
      exact each.1
    · rename_i given
      exact stays_await (.evaluate (each.1.content given)) (.case fallback each.1 each.2) frames on
    · exact goes_fail (s := s)

theorem stays_call {n : Nat} {arguments : List Value} (coded : D.Coded)
    (frames : Stack D bottom .value s.frames) (on : s.world.store.On D) :
    (s.call n arguments).Stays D bottom := by
  unfold Situation.call
  split
  · exact stays_go .value frames on
  · rename_i f known
    refine goes_noting fun w same => ?_
    rw [← same] at on known
    simp only [Situation.withWorld]
    split
    · exact goes_require fun text _ => stays_go .value frames on
    · rename_i parameters statements home body
      rw [on.functions] at known
      have code := (coded n f parameters statements home known body).enter on
      have opened : (w.openBlock home).1.store.On D := on.openBlock home
      have bound := World.bind_on opened (w.openBlock home).2 s.program.found
        (parameters.zip arguments)
      change Step.Goes _ (if s.settings.depth ≤ s.calls then _ else _)
      by_cases deep : s.settings.depth ≤ s.calls
      · rw [if_pos deep]
        exact ⟨_, rfl⟩
      · rw [if_neg deep]
        split
        · exact ⟨_, rfl⟩
        · rename_i bind
          rw [bind] at bound
          exact stays_execute code (.cons .activation frames) bound

/-- A value for a frame. -/
theorem stays_resume {v : Value} {frame : Frame} (fits : frame.Fits D .value o)
    (frames : Stack D bottom o s.frames) (on : s.world.store.On D) :
    (s.resume v frame).Stays D bottom := by
  cases fits with
  | left second => exact stays_await (.evaluate second) .right frames on
  | right => exact goes_require fun _ _ => stays_go .value frames on
  | test second =>
    refine goes_requireBoolean fun b => ?_
    split
    · exact stays_go .value frames on
    · exact stays_await (.evaluate second) .boolean frames on
  | boolean => exact goes_requireBoolean fun b => stays_go .value frames on
  | index =>
    simp only [Situation.resume]
    exact goes_requireIndex fun i => stays_go .value frames on
  | @argument label name done rest items env call count others =>
    cases rest with
    | nil =>
      have count : items.length = (v :: done).reverse.length := by simpa using count
      obtain ⟨_, n, _, _, go⟩ := invoke_eq_call (s := s) call count on
      simp only [Situation.resume]
      rw [go]
      exact stays_go .call frames on
    | cons e rest =>
      have count : items.length = (v :: done).length + 1 + rest.length := by
        simp only [List.length_cons] at count ⊢
        omega
      exact stays_await (.evaluate others.1) (.argument call count others.2) frames on
  | @element done rest env others =>
    cases rest with
    | nil => exact stays_go .value frames on.setLists
    | cons e rest => exact stays_await (.evaluate others.1) (.element others.2) frames on
  | discard => exact stays_go .ended frames on
  | declaration =>
    refine goes_require fun key _ => goes_notingText fun w same => ?_
    exact stays_go (s := s.withWorld w) .ended frames (same ▸ on.add)
  | assignment index =>
    simp only [Situation.resume]
    split
    · exact stays_go .ended frames on
    · split
      · exact goes_fail (s := s)
      · split
        · exact stays_go .ended frames on.setValue
        · exact goes_requireList fun list => stays_await (.evaluate index) .target frames on
  | target =>
    simp only [Situation.resume]
    exact goes_requireIndex fun i => stays_go .ended frames on.setLists
  | branch first second =>
    refine goes_requireBoolean fun b => goes_notingText fun w same => ?_
    rw [← same] at on
    refine stays_enter (s := s.withWorld w) ?_ frames on
    cases b with
    | true => exact first
    | false => exact second
  | subject each =>
    refine goes_require fun cases listed => ?_
    exact stays_select none (fun b hb => by cases hb) (each.items listed) frames on
  | case fallback here others =>
    refine goes_require fun same _ => ?_
    split
    · exact stays_take here frames on
    · exact stays_select _ fallback others frames on
  | @condition condition statements env test body =>
    refine goes_requireBoolean fun b => goes_notingText fun w same => ?_
    rw [← same] at on
    cases b with
    | false => exact stays_go (s := s.withWorld w) .ended frames on
    | true =>
      have round : Stack D bottom .ending (.round condition statements env :: s.frames) :=
        .cons (.round test body) frames
      simp only [↓reduceIte, Situation.withWorld]
      cases s.settings.loops with
      | shared => exact stays_execute body round on
      | perRound => exact stays_execute (body.enter on) round (on.openBlock env)
  | result => exact stays_go .leave frames on

/-- The end of a statement in front of a frame. -/
theorem stays_proceed {frame : Frame} (fits : frame.Fits D .ending o)
    (frames : Stack D bottom o s.frames) (on : s.world.store.On D) :
    (s.proceed frame).Stays D bottom := by
  cases fits with
  | round test body => exact stays_await (.evaluate test) (.condition test body) frames on
  | rest others => exact stays_go (.execute others) frames on
  | activation => exact stays_go .value frames on

/-- A `RETURN` in front of a frame. -/
theorem stays_unwind {v : Value} {frame : Frame} (fits : frame.Fits D .ending o)
    (frames : Stack D bottom o s.frames) (on : s.world.store.On D) :
    (s.unwind v frame).Stays D bottom := by
  cases fits with
  | round | rest => exact stays_go .leave frames on
  | activation => exact stays_go .value frames on

end

/-- Code that answers goes on to code that answers, unless the frames at the bottom get their
value. -/
theorem Machine.Ready.step {D : Ground} {bottom : List Frame} {m : Machine}
    (h : m.Ready D bottom) (coded : D.Coded) (settings : Settings) (program : Annotated)
    (busy : ∀ v, m.control = .value v → m.frames ≠ bottom) :
    (m.step settings program).Stays D bottom := by
  obtain ⟨next, frames, on⟩ := h
  cases next with
  | evaluate serves => exact stays_evaluate serves frames on
  | execute serves => exact stays_executeAll serves frames on
  | call => exact stays_call coded frames on
  | value =>
    cases frames with
    | bottom => exact (busy _ rfl rfl).elim
    | cons fits below => exact stays_resume fits below on
  | ended =>
    cases frames with
    | cons fits below => exact stays_proceed fits below on
  | leave =>
    cases frames with
    | cons fits below => exact stays_unwind fits below on

/-- A machine is about to call what the node with a label names, with so many arguments: there are
none, or the last has its value. -/
inductive Machine.Calls : Machine → Label → Json → Nat → Prop where
  | bare {label : Label} {name : Json} {env : Env} {K : List Frame} {calls : Nat} {w : World} :
      Calls ⟨.evaluate (.call label name (.list [])) env, K, calls, w⟩ label name 0
  | last {label : Label} {v : Value} {name name' : Json} {done : List Value}
      {arguments : Node Label} {env : Env} {K : List Frame} {calls : Nat} {w : World} :
      Calls ⟨.value v, .argument name done [] (.call label name' arguments) env :: K, calls, w⟩
        label name (done.length + 1)

/-- A call that answers is one of a function that it may be of. -/
theorem Machine.Ready.calls {D : Ground} {bottom : List Frame} {m : Machine} {label : Label}
    {name : Json} {arity : Nat} (h : m.Ready D bottom) (calls : m.Calls label name arity)
    (settings : Settings) (program : Annotated)
    (idle : ∀ name done rest node env K, bottom ≠ .argument name done rest node env :: K) :
    ∃ key n arguments K, name.key? = some key ∧ D.may label key arity n ∧
      arguments.length = arity ∧
      m.step settings program = .next ⟨.call n arguments, K, m.calls, m.world⟩ := by
  obtain ⟨next, frames, on⟩ := h
  cases calls with
  | bare =>
    cases next with
    | evaluate serves =>
      have count : ([] : List (Node Label)).length = ([] : List Value).length := rfl
      obtain ⟨key, n, isName, may, go⟩ :=
        invoke_eq_call (s := ⟨settings, program, _, _, _⟩) serves.1 count on
      exact ⟨key, n, [], _, isName, may, rfl, go _⟩
  | @last _ v _ _ done =>
    cases frames with
    | bottom => exact (idle _ _ _ _ _ _ rfl).elim
    | cons fits below =>
      cases fits with
      | @argument _ _ _ _ items _ call count others =>
        have all : (v :: done).reverse.length = done.length + 1 := List.length_reverse
        have count : items.length = (v :: done).reverse.length := all ▸ count
        obtain ⟨key, n, isName, may, go⟩ :=
          invoke_eq_call (s := ⟨settings, program, _, _, _⟩) call count on
        rw [all] at may
        exact ⟨key, n, _, _, isName, may, all, go _⟩

end PlcLang
