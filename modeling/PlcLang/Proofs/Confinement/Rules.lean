import PlcLang.Proofs.Confinement.Region
import PlcLang.Proofs.Running.Spans

/-! A step inside a region stays there. -/

namespace PlcLang

/-- What a step leads to is in a region, and so is the store where it ends the run. -/
def Step.Inside (R : Region) : Step → Prop
  | .next m => m.Inside R
  | .halt w _ => w.store.Within R

/-- The rules go on in a region, where a value or an ending is waited for. -/
structure Situation.Inside (R : Region) (o : Arrival) (s : Situation) : Prop where
  frames : R.Stack o s.frames
  within : s.world.store.Within R
  loops : s.settings.loops = R.loops

namespace Situation.Inside

variable {R : Region} {o o' : Arrival} {s : Situation} {env : Env} {v : Value} {f : Frame}

theorem fail (h : s.Inside R o) (f : Fault) : (s.fail f).Inside R :=
  h.within

theorem go {control : Control} (h : s.Inside R o) (next : control.Inside R o) :
    (s.go control).Inside R :=
  .intro next h.frames h.within

theorem behind (h : s.Inside R o') (inside : f.Inside R o o') : (s.behind f).Inside R o :=
  ⟨.cons inside h.frames, h.within, h.loops⟩

theorem await {control : Control} (h : s.Inside R o') (inside : f.Inside R o o')
    (next : control.Inside R o) : (s.await f control).Inside R :=
  .intro next (.cons inside h.frames) h.within

theorem withWorld {w : World} (h : s.Inside R o) (within : w.store.Within R) :
    (s.withWorld w).Inside R o :=
  ⟨h.frames, within, h.loops⟩

theorem withStore {store : Store} (h : s.Inside R o) (within : store.Within R) :
    (s.withWorld { s.world with store := store }).Inside R o :=
  h.withWorld within

theorem print (h : s.Inside R o) (text : String) :
    (s.withWorld (s.world.print text)).Inside R o :=
  h.withWorld h.within

theorem openBlock (h : s.Inside R o) (env : Env) :
    (s.withWorld (s.world.openBlock env).1).Inside R o :=
  h.withWorld (h.within.openBlock env)

/-- The block that is opened is new. -/
theorem owns (h : s.Inside R o) (sees : R.Sees env) : R.Owns (s.world.openBlock env).2 :=
  h.within.owns_openBlock sees

theorem require {α : Type} {x : Except Fault α} {k : α → Step} (h : s.Inside R o)
    (hk : ∀ a, x = .ok a → (k a).Inside R) : (s.require x k).Inside R := by
  cases x with
  | error f => exact h.fail f
  | ok a => exact hk a rfl

theorem noting {level : Nat} {n : World → Except Fault Note} {k : Situation → Step}
    (h : s.Inside R o)
    (hk : ∀ w, w.store = s.world.store → (s.withWorld w).Inside R o →
      (k (s.withWorld w)).Inside R) :
    (s.noting level n k).Inside R := by
  unfold Situation.noting
  split
  · exact hk s.world rfl h
  · exact h.require fun note _ => hk (s.world.note note) rfl (h.withWorld h.within)

theorem notingText {level : Nat} {n : String → Note} {k : Situation → Step} (h : s.Inside R o)
    (hk : ∀ w, w.store = s.world.store → (s.withWorld w).Inside R o →
      (k (s.withWorld w)).Inside R) :
    (s.notingText level v n k).Inside R :=
  h.noting hk

theorem requireBoolean {e : Node Label} {k : Bool → Step} (h : s.Inside R o)
    (hk : ∀ b, (k b).Inside R) : (s.requireBoolean v e k).Inside R := by
  cases v with
  | boolean b => exact hk b
  | _ => exact h.fail _

theorem requireList {e : Node Label} {k : Nat → Step} (h : s.Inside R o)
    (hk : ∀ list, (k list).Inside R) : (s.requireList v e k).Inside R := by
  cases v with
  | list address => exact hk address
  | _ => exact h.fail _

theorem requireIndex {list : Nat} {e : Node Label} {k : Nat → Step} (h : s.Inside R o)
    (hk : ∀ i, (k i).Inside R) : (s.requireIndex list v e k).Inside R := by
  cases v with
  | integer i =>
    simp only [Situation.requireIndex]
    split
    · exact h.fail _
    · exact hk _
  | _ => exact h.fail _

theorem resolve {binding : Option Binding} {name : Json} {node : Node Label}
    {k : Nat → Variable → Step} (h : s.Inside R o) (sees : R.Sees env)
    (hk : ∀ n x, R.MayWrite n → (k n x).Inside R) :
    (s.resolve env binding name node k).Inside R := by
  unfold Situation.resolve
  split
  · exact h.fail _
  · exact h.fail _
  · rename_i n found
    split
    · exact hk n _ (h.within.mayWrite sees found)
    · exact h.fail _

theorem execute (h : s.Inside R .ending) (owns : R.Owns env) (statements : Node Label) :
    (s.execute statements env).Inside R :=
  h.require fun _ _ => h.go (.execute owns)

theorem enter (h : s.Inside R .ending) (sees : R.Sees env) (statements : Node Label) :
    (s.enter statements env).Inside R :=
  (h.openBlock env).execute (h.owns sees) statements

theorem take (h : s.Inside R .ending) (sees : R.Sees env) (reason : String)
    (branch : Node Label) : (s.take v reason branch env).Inside R := by
  refine h.notingText fun w _ h => ?_
  cases branch with
  | case value statements => exact h.enter sees statements
  | _ => exact h.fail _

theorem select (h : s.Inside R .ending) (sees : R.Sees env) {default : Option (Node Label)}
    {cases : List (Node Label)} : (s.select v default env cases).Inside R := by
  induction cases generalizing default with
  | nil =>
    cases default with
    | none => exact h.go .ended
    | some branch => exact h.take sees "default" branch
  | cons branch rest ih =>
    simp only [Situation.select]
    split
    · exact h.fail _
    · exact ih
    · exact h.await (.case sees) (.evaluate sees)
    · exact h.fail _

theorem invoke (h : s.Inside R .value) (closed : R.Closed) (sees : R.Sees env) (name : Json)
    (arguments : List Value) (node : Node Label) :
    (s.invoke env name arguments node).Inside R := by
  refine h.require fun key _ => ?_
  split
  · rename_i k found
    exact h.go (.call (h.within.mayCall closed sees found))
  · exact h.fail _

theorem evaluate (h : s.Inside R .value) (closed : R.Closed) (sees : R.Sees env)
    (e : Node Label) : (s.evaluate e env).Inside R := by
  cases e with
  | literal => exact h.go .value
  | group => exact h.go (.evaluate sees)
  | binary label op left right =>
    cases op with
    | and | or => exact h.await (.test sees) (.evaluate sees)
    | _ => exact h.await (.left sees) (.evaluate sees)
  | access label name offset =>
    refine h.resolve sees fun n x _ => ?_
    split
    · exact h.go .value
    · exact h.requireList fun list => h.await .index (.evaluate sees)
  | call label name arguments =>
    refine h.require fun items _ => ?_
    cases items with
    | nil => exact h.invoke closed sees name [] _
    | cons first rest => exact h.await (.argument sees) (.evaluate sees)
  | listLiteral label elements =>
    refine h.require fun items _ => ?_
    cases items with
    | nil => exact (h.withStore (h.within.setLists _)).go .value
    | cons first rest => exact h.await (.element sees) (.evaluate sees)
  | _ => exact h.fail _

/-- Only a declaration needs a block of its own. -/
theorem executeOne {statement : Node Label} (h : s.Inside R .ending) (sees : R.Sees env)
    (owns : ∀ label name typeName value,
      statement = .declaration label name typeName value → R.Owns env) :
    (s.executeOne statement env).Inside R := by
  cases statement with
  | expressionStmt => exact h.await .discard (.evaluate sees)
  | declaration label name typeName value =>
    refine h.await (.declaration (owns _ _ _ _ rfl)) ?_
    split
    · exact .value
    · exact .evaluate sees
  | assignment receiver value =>
    cases receiver with
    | access label name offset =>
      exact h.resolve sees fun n _ may => h.await (.assignment may sees) (.evaluate sees)
    | _ => exact h.fail _
  | conditional => exact h.await (.branch sees) (.evaluate sees)
  | switch => exact h.await (.subject sees) (.evaluate sees)
  | loop condition statements =>
    simp only [Situation.executeOne]
    split
    · have inside := h.owns sees
      exact (h.openBlock env).await (.condition inside.sees fun _ => inside.new)
        (.evaluate inside.sees)
    · rename_i apart
      refine h.await (.condition sees fun shared => ?_) (.evaluate sees)
      rw [← h.loops, apart] at shared
      cases shared
  | ret => exact h.await .result (.evaluate sees)
  | _ => exact h.fail _

theorem executeAll (h : s.Inside R .ending) (owns : R.Owns env)
    (statements : List (Node Label)) : (s.executeAll statements env).Inside R := by
  cases statements with
  | nil => exact h.go .ended
  | cons first rest => exact (h.behind (.rest owns)).executeOne owns.sees fun _ _ _ _ _ => owns

theorem call {k : Nat} (h : s.Inside R .value) (may : R.MayCall k) (arguments : List Value) :
    (s.call k arguments).Inside R := by
  unfold Situation.call
  split
  · exact h.go .value
  · rename_i f known
    refine h.noting fun w same h => ?_
    split
    · exact h.require fun text _ => (h.print text).go .value
    · rename_i parameters statements home body
      have sees : R.Sees home := by
        rw [← same] at known
        exact may f parameters statements home (h.within.functions ▸ known) body
      split
      · exact h.fail _
      · have owns : R.Owns (w.openBlock home).2 := h.owns sees
        have bound := (h.openBlock home).within.bind owns s.program.found
          (parameters.zip arguments)
        dsimp only [Situation.withWorld] at bound ⊢
        generalize (w.openBlock home).1.bind (w.openBlock home).2 s.program.found
          (parameters.zip arguments) = called at bound ⊢
        obtain ⟨w, _ | f⟩ := called
        · have inside : Situation.Inside R .ending
              (Situation.behind { s with world := w, calls := s.calls + 1 } (.activation k)) :=
            ⟨.cons .activation h.frames, bound, h.loops⟩
          exact inside.execute owns statements
        · exact bound

/-- A value for a frame of the region. -/
theorem resume (h : s.Inside R o) (closed : R.Closed) (inside : f.Inside R .value o) :
    (s.resume v f).Inside R := by
  cases inside with
  | left sees => exact h.await .right (.evaluate sees)
  | right => exact h.require fun _ _ => h.go .value
  | test sees =>
    refine h.requireBoolean fun b => ?_
    split
    · exact h.go .value
    · exact h.await .boolean (.evaluate sees)
  | boolean => exact h.requireBoolean fun b => h.go .value
  | index =>
    simp only [Situation.resume]
    exact h.requireIndex fun i => h.go .value
  | @argument name done rest node env sees =>
    cases rest with
    | nil => exact h.invoke closed sees name _ node
    | cons e rest => exact h.await (.argument sees) (.evaluate sees)
  | @element done rest env sees =>
    cases rest with
    | nil => exact (h.withStore (h.within.setLists _)).go .value
    | cons e rest => exact h.await (.element sees) (.evaluate sees)
  | discard => exact h.go .ended
  | declaration owns =>
    refine h.require fun key _ => ?_
    exact (h.withWorld (h.within.add owns)).notingText fun w _ h => h.go .ended
  | assignment may sees =>
    simp only [Situation.resume]
    split
    · exact h.go .ended
    · split
      · exact h.fail _
      · split
        · exact (h.withStore (h.within.setValue may v)).go .ended
        · exact h.requireList fun list => h.await .target (.evaluate sees)
  | target =>
    simp only [Situation.resume]
    exact h.requireIndex fun i => (h.withStore (h.within.setLists _)).go .ended
  | branch sees =>
    exact h.requireBoolean fun b => h.notingText fun w _ h => h.enter sees _
  | subject sees => exact h.require fun items _ => h.select sees
  | case sees =>
    refine h.require fun same _ => ?_
    split
    · exact h.take sees "case" _
    · exact h.select sees
  | @condition condition statements env sees new =>
    refine h.requireBoolean fun b => h.notingText fun w _ h => ?_
    split
    · cases loops : s.settings.loops with
      | shared =>
        have owns : R.Owns env := ⟨sees, new (h.loops.symm.trans loops)⟩
        dsimp only [Situation.withWorld]
        rw [loops]
        exact (h.behind (.round sees new)).execute owns statements
      | perRound =>
        dsimp only [Situation.withWorld]
        rw [loops]
        exact ((h.openBlock env).behind (.round sees new)).execute (h.owns sees) statements
    · exact h.go .ended
  | result => exact h.go .leave

/-- The end of a statement in front of a frame of the region. -/
theorem proceed (h : s.Inside R o) (inside : f.Inside R .ending o) : (s.proceed f).Inside R := by
  cases inside with
  | rest owns => exact h.go (.execute owns)
  | round sees new => exact h.await (.condition sees new) (.evaluate sees)
  | activation => exact .intro .value h.frames h.within

/-- A `RETURN` in front of a frame of the region. -/
theorem unwind (h : s.Inside R o) (inside : f.Inside R .ending o) : (s.unwind v f).Inside R := by
  cases inside with
  | rest | round => exact h.go .leave
  | activation => exact .intro .value h.frames h.within

end Situation.Inside

section

variable {R : Region} {settings : Settings} {program : Annotated} {m : Machine} {last : Step}

theorem Step.Inside.within (h : last.Inside R) : last.world.store.Within R := by
  cases last with
  | next m => exact Machine.Inside.within h
  | halt => exact h

/-- A machine inside a region that has not come to the frames behind it takes a step inside. -/
theorem Machine.Inside.step (h : m.Inside R) (closed : R.Closed) (loops : settings.loops = R.loops)
    (busy : m.control.isSettled = true → m.frames ≠ R.frames) :
    (m.step settings program).Inside R := by
  obtain ⟨next, frames, within⟩ := h
  rename_i calls w
  have situation {o : Arrival} {K : List Frame} (frames : R.Stack o K) :
      Situation.Inside R o ⟨settings, program, K, calls, w⟩ :=
    ⟨frames, within, loops⟩
  have here := situation frames
  cases next with
  | evaluate sees => exact here.evaluate closed sees _
  | execute owns => exact here.executeAll owns _
  | call may => exact here.call may _
  | value =>
    cases frames with
    | bottom _ here => exact (busy rfl here).elim
    | cons inside below => exact (situation below).resume closed inside
  | ended =>
    cases frames with
    | bottom _ here => exact (busy rfl here).elim
    | cons inside below => exact (situation below).proceed inside
  | leave =>
    cases frames with
    | bottom _ here => exact (busy rfl here).elim
    | cons inside below => exact (situation below).unwind inside

/-- So do all machines of a part of a run that does not come to them. -/
theorem Step.Inside.spans {kind : Machine → Prop} (first : (m.step settings program).Inside R)
    (closed : R.Closed) (loops : settings.loops = R.loops)
    (busy : ∀ m', kind m' → m'.control.isSettled = true → m'.frames ≠ R.frames)
    (spans : m.Spans settings program kind last) : last.Inside R := by
  induction spans with
  | first => exact first
  | later _ still ih => exact Machine.Inside.step ih closed loops (busy _ still)

theorem Region.Stack.suffix {o : Arrival} {K : List Frame} (h : R.Stack o K) : R.frames <:+ K := by
  induction h with
  | bottom _ here => exact here ▸ List.suffix_refl _
  | cons _ _ ih => exact ih.trans (List.suffix_cons _ _)

/-- At the frames behind a region there is what it comes to. -/
theorem Machine.Inside.arrives (h : m.Inside R) (here : m.frames = R.frames) :
    m.control.Inside R R.arrival := by
  obtain ⟨next, frames, -⟩ := h
  cases frames with
  | bottom comes => exact comes ▸ next
  | cons _ below =>
    have longer := below.suffix.length_le
    rw [← show _ = R.frames from here, List.length_cons] at longer
    omega

/-- Where everything may be looked at, everything may be called. -/
theorem Region.closed_of_near (near : ∀ b, R.near b) : R.Closed :=
  fun _ _ _ _ _ _ _ _ _ _ _ b _ _ => near b

/-- The region of a value: it looks at everything, and comes to the frame that waits for it. -/
def Region.value (settings : Settings) (s : Store) (K : List Frame) : Region :=
  ⟨s, fun _ => True, settings.loops, .value, K⟩

theorem Region.closed_value {s : Store} {K : List Frame} : (Region.value settings s K).Closed :=
  closed_of_near fun _ => trivial

/-- What the end of a statement or a `RETURN` leads to changes nothing. -/
theorem Machine.world_of_ending (here : m.control.Inside R .ending)
    (done : m.control.isSettled = true) : (m.step settings program).world = m.world := by
  obtain ⟨control, K, calls, w⟩ := m
  cases here with
  | execute => cases done
  | ended | leave =>
    cases K with
    | nil => rfl
    | cons f K => cases f <;> rfl

end

end PlcLang
