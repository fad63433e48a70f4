import PlcLang.Proofs.Containment.Regular

/-! What a run of a program needs the texts of, and how else its values end it. -/

namespace PlcLang

/-- What is done next has values and code as texts have them. -/
def Control.Regular : Control → Prop
  | .globals others code _ => Node.EachRegular others ∧ code.Holds
  | .functions others _ => Node.EachRegular others
  | .evaluate e _ => e.AllRegular
  | .execute statements _ => Node.EachRegular statements
  | .call _ arguments => ∀ v ∈ arguments, v.Regular
  | .value v | .leave v => v.Regular
  | .start _ | .main _ | .ended => True

/-- So has what waits. -/
def Frame.Regular : Frame → Prop
  | .global _ others code _ => Node.EachRegular others ∧ code.Holds
  | .left _ operand _ _ | .test _ _ operand _ => operand.AllRegular
  | .right _ v _ | .target _ v _ => v.Regular
  | .argument _ done others _ _ | .element done others _ =>
    (∀ v ∈ done, v.Regular) ∧ Node.EachRegular others
  | .assignment _ offset _ _ _ => offset.AllRegular
  | .branch _ thenStatements elseStatements _ => thenStatements.Holds ∧ elseStatements.Holds
  | .subject branches _ => branches.Holds
  | .case v fallback here others _ =>
    v.Regular ∧ (∀ b ∈ fallback, b.AllRegular) ∧ here.AllRegular ∧ Node.EachRegular others
  | .condition guard statements _ | .round guard statements _ =>
    guard.AllRegular ∧ statements.Holds
  | .rest statements _ => Node.EachRegular statements
  | .boolean _ | .index _ _ | .discard | .declaration _ _ _ | .result | .activation _ => True

structure Machine.Regular (m : Machine) : Prop where
  control : m.control.Regular
  frames : ∀ f ∈ m.frames, f.Regular
  store : m.world.store.Regular

/-- The next step needs the text of an integer: it prints it or something that contains it, joins it
to a string, or says that it is no index or no exponent. -/
inductive Machine.Shows : Machine → Int → Prop where
  | printed {n : Nat} {f : Callable} {arguments : List Value} {k : Int} {K : List Frame}
      {calls : Nat} {w : World} (known : w.store.functions[n]? = some f) (print : f.body = .print)
      (inside : w.store.lists.Contains (arguments.headD .nil) k) :
      Shows ⟨.call n arguments, K, calls, w⟩ k
  | operand {op : Operator} {a b : Value} {node : Node Label} {k : Int} {K : List Frame}
      {calls : Nat} {w : World} (spells : w.store.lists.Spells op a b k) :
      Shows ⟨.value b, .right op a node :: K, calls, w⟩ k
  | read {list : Nat} {node : Node Label} {k : Int} {K : List Frame} {calls : Nat} {w : World}
      (outside : k < 0 ∨ (w.store.lists[list]?.getD #[]).size ≤ k) :
      Shows ⟨.value (.integer k), .index list node :: K, calls, w⟩ k
  | written {list : Nat} {v : Value} {receiver : Node Label} {k : Int} {K : List Frame}
      {calls : Nat} {w : World} (outside : k < 0 ∨ (w.store.lists[list]?.getD #[]).size ≤ k) :
      Shows ⟨.value (.integer k), .target list v receiver :: K, calls, w⟩ k

/-- The next step is a sum, difference, product or quotient of two decimals that has no result. -/
inductive Machine.Exceeds : Machine → Decimal.Signal → Prop where
  | intro {op : Operator} {a b : Decimal} {node : Node Label} {signal : Decimal.Signal}
      {K : List Frame} {calls : Nat} {w : World}
      (fails : decimalResult op a b (some node) = .error (.decimal signal)) :
      Exceeds ⟨.value (.decimal b), .right op (.decimal a) node :: K, calls, w⟩ signal

/-- The raw faults that the next step may end with. -/
def Machine.Raises (m : Machine) (f : Fault) : Prop :=
  (f = .longInteger ∧ ∃ k, m.Shows k ∧ Integer.text? k = none) ∨
    ∃ signal, f = .decimal signal ∧ (signal = .overflow ∨ signal = .outOfSpace) ∧ m.Exceeds signal

/-- A step goes on as before; of the raw faults it ends with one of these only. -/
def Step.Contains (E : Fault → Prop) : Step → Prop
  | .next m => m.Regular
  | .halt _ result => ∀ f, result = .error f → f.IsRaw → E f

/-- A rule is about to be applied, and nothing is noted. -/
structure Situation.Regular (s : Situation) : Prop where
  frames : ∀ f ∈ s.frames, f.Regular
  store : s.world.store.Regular
  silent : s.settings.debug = 0
  tree : s.program.tree.AllRegular

namespace Situation.Regular

variable {s : Situation} {env : Env} {E : Fault → Prop}

theorem fail (s : Situation) {f : Fault} (tame : ¬ f.IsRaw) : (s.fail f).Contains E := by
  intro f' same raw
  cases same
  exact (tame raw).elim

theorem problem (s : Situation) {cause : Cause} {subject : Option (Node Label)} :
    (s.problem cause subject).Contains E :=
  fail s id

theorem unfit (s : Situation) {u : Unfit} (other : u = .missingPart ∨ u = .notAName) :
    (s.fail (.unfit u)).Contains E := by
  refine fail s ?_
  rcases other with rfl | rfl
  all_goals
    rintro (raw | raw | raw) <;> cases raw

theorem go (h : s.Regular) {control : Control} (next : control.Regular) :
    (s.go control).Contains E :=
  ⟨next, h.frames, h.store⟩

theorem behind (h : s.Regular) {frame : Frame} (waits : frame.Regular) : (s.behind frame).Regular :=
  ⟨List.forall_mem_cons.2 ⟨waits, h.frames⟩, h.store, h.silent, h.tree⟩

theorem await (h : s.Regular) {frame : Frame} {control : Control} (waits : frame.Regular)
    (next : control.Regular) : (s.await frame control).Contains E :=
  (h.behind waits).go next

theorem withStore (h : s.Regular) {store : Store} (regular : store.Regular) :
    (s.withWorld { s.world with store := store }).Regular :=
  ⟨h.frames, regular, h.silent, h.tree⟩

theorem openBlock (h : s.Regular) (env : Env) :
    (s.withWorld (s.world.openBlock env).1).Regular :=
  h.withStore (h.store.openBlock env)

theorem leave (h : s.Regular) {v : Value} (held : v.Regular) :
    ({ s with calls := s.calls - 1 }.go (.value v)).Contains E := by
  have back : Situation.Regular { s with calls := s.calls - 1 } :=
    ⟨h.frames, h.store, h.silent, h.tree⟩
  have next : (Control.value v).Regular := held
  exact back.go next

theorem require (s : Situation) {α : Type} {x : Except Fault α} {k : α → Step} (tame : Tame x)
    (hk : ∀ a, x = .ok a → (k a).Contains E) : (s.require x k).Contains E := by
  cases x with
  | error f => exact fail s (tame f rfl)
  | ok a => exact hk a rfl

theorem noting (h : s.Regular) {level : Nat} (above : 0 < level) {n : World → Except Fault Note}
    {k : Situation → Step} (hk : (k s).Contains E) : (s.noting level n k).Contains E := by
  rw [Situation.noting, if_pos (h.silent ▸ above)]
  exact hk

theorem notingText (h : s.Regular) {level : Nat} (above : 0 < level) {v : Value}
    {n : String → Note} {k : Situation → Step} (hk : (k s).Contains E) :
    (s.notingText level v n k).Contains E :=
  h.noting above hk

theorem requireBoolean (s : Situation) {v : Value} {e : Node Label} {k : Bool → Step}
    (hk : ∀ b, (k b).Contains E) : (s.requireBoolean v e k).Contains E := by
  cases v with
  | boolean b => exact hk b
  | _ => exact problem s

theorem requireList (s : Situation) {v : Value} {e : Node Label} {k : Nat → Step}
    (hk : ∀ list, (k list).Contains E) : (s.requireList v e k).Contains E := by
  cases v with
  | list address => exact hk address
  | _ => exact problem s

/-- An index that is out of range is shown. -/
theorem requireIndex (s : Situation) {list : Nat} {v : Value} {e : Node Label} {k : Nat → Step}
    (hk : ∀ i, (k i).Contains E)
    (shown : ∀ n, v = .integer n → n < 0 ∨ (s.world.store.lists[list]?.getD #[]).size ≤ n →
      Integer.text? n = none → E .longInteger) :
    (s.requireIndex list v e k).Contains E := by
  cases v with
  | integer n =>
    simp only [Situation.requireIndex]
    split
    · rename_i outside
      intro f same raw
      obtain ⟨rfl, long⟩ := Fault.ofInteger_raw (Except.error.inj same) raw
      exact shown n rfl outside long
    · exact hk _
  | _ => exact problem s

theorem resolve (h : s.Regular) {binding : Option Binding} {name : Json} {node : Node Label}
    {k : Nat → Variable → Step} (hk : ∀ n x, x.value.Regular → (k n x).Contains E) :
    (s.resolve env binding name node k).Contains E := by
  unfold Situation.resolve
  split
  · exact unfit s (.inr rfl)
  · exact problem s
  · split
    · rename_i n _ _ x known
      exact hk n x (h.store.values.vars n x known)
    · exact problem s

theorem execute (h : s.Regular) {statements : Node Label} (code : statements.Holds) :
    (s.execute statements env).Contains E :=
  require s code.tame_items fun _ listed => h.go (code.items listed)

theorem enter (h : s.Regular) {statements : Node Label} (code : statements.Holds) :
    (s.enter statements env).Contains E :=
  (h.openBlock env).execute code

theorem invoke (h : s.Regular) {name : Json} {arguments : List Value} {node : Node Label}
    (each : ∀ v ∈ arguments, v.Regular) : (s.invoke env name arguments node).Contains E := by
  apply require s (tame_key name)
  intro key _
  split
  · exact h.go each
  · exact problem s

theorem evaluate (h : s.Regular) {e : Node Label} (code : e.AllRegular) :
    (s.evaluate e env).Contains E := by
  cases e with
  | literal label value => exact h.go code
  | group label inner => exact h.go code.2
  | binary label op left right =>
    obtain ⟨-, first, second⟩ := code
    cases op <;> exact h.await second first
  | access label name offset =>
    apply h.resolve
    intro n x held
    split
    · exact h.go held
    · exact requireList s fun list => h.await trivial code.2
  | call label name arguments =>
    have slot := code.1.holds code.2
    apply require s slot.tame_items
    intro items listed
    have each := slot.items listed
    cases items with
    | nil => exact h.invoke (by simp)
    | cons first rest => exact h.await ⟨by simp, each.2⟩ each.1
  | listLiteral label elements =>
    have slot := code.1.holds code.2
    apply require s slot.tame_items
    intro items listed
    have each := slot.items listed
    cases items with
    | nil => exact (h.withStore ⟨h.store.values.newList (by simp), h.store.code⟩).go trivial
    | cons first rest => exact h.await ⟨by simp, each.2⟩ each.1
  | _ => exact fail s id

theorem executeOne (h : s.Regular) {statement : Node Label} (code : statement.AllRegular) :
    (s.executeOne statement env).Contains E := by
  cases statement with
  | expressionStmt e => exact h.await trivial code.2
  | declaration label name typeName value =>
    refine h.await trivial ?_
    split
    · exact trivial
    · exact code.2
  | assignment receiver value =>
    cases receiver with
    | access label name offset =>
      apply h.resolve
      intro n x _
      exact h.await code.2.1.2 code.2.2
    | _ => exact problem s
  | conditional condition thenStatements elseStatements =>
    exact h.await ⟨code.1.1.holds code.2.2.1, code.1.2.holds code.2.2.2⟩ code.2.1
  | switch condition cases => exact h.await (code.1.holds code.2.2) code.2.1
  | loop condition statements =>
    have waits (inside : Env) : (Frame.condition condition statements inside).Regular :=
      ⟨code.2.1, code.1.holds code.2.2⟩
    simp only [Situation.executeOne]
    cases s.settings.loops with
    | shared => exact (h.openBlock env).await (waits _) code.2.1
    | perRound => exact h.await (waits _) code.2.1
  | ret value => exact h.await trivial code.2
  | _ => exact fail s id

theorem executeAll (h : s.Regular) {statements : List (Node Label)}
    (code : Node.EachRegular statements) : (s.executeAll statements env).Contains E := by
  cases statements with
  | nil => exact h.go trivial
  | cons first rest =>
    have waits : (Frame.rest rest env).Regular := code.2
    exact (h.behind waits).executeOne code.1

theorem take (h : s.Regular) {v : Value} {reason : String} {branch : Node Label}
    (code : branch.AllRegular) : (s.take v reason branch env).Contains E := by
  apply h.notingText (by decide)
  cases branch with
  | case value statements => exact h.enter (code.1.holds code.2.2)
  | _ => exact unfit s (.inl rfl)

theorem select (h : s.Regular) {v : Value} (held : v.Regular) {cases : List (Node Label)}
    (default : Option (Node Label)) (fallback : ∀ b ∈ default, b.AllRegular)
    (each : Node.EachRegular cases) : (s.select v default env cases).Contains E := by
  induction cases generalizing default with
  | nil =>
    cases default with
    | none => exact h.go trivial
    | some branch => exact h.take (fallback branch rfl)
  | cons case rest ih =>
    simp only [Situation.select]
    split
    · exact unfit s (.inl rfl)
    · refine ih (some case) (fun b hb => ?_) each.2
      cases hb
      exact each.1
    · rename_i given
      exact h.await ⟨held, fallback, each.1, each.2⟩ (each.1.content given)
    · exact fail s id

/-- A call prints its argument, or passes its arguments to code. -/
theorem call (h : s.Regular) {n : Nat} {arguments : List Value}
    (each : ∀ v ∈ arguments, v.Regular) :
    (s.call n arguments).Contains
      (Machine.Raises ⟨.call n arguments, s.frames, s.calls, s.world⟩) := by
  unfold Situation.call
  split
  · exact h.go trivial
  · rename_i f known
    apply h.noting (by decide)
    split
    · rename_i print
      have first : (arguments.headD .nil).Regular := by
        cases arguments with
        | nil => trivial
        | cons v rest => exact each v List.mem_cons_self
      cases printed : s.world.text s.settings (arguments.headD .nil) with
      | ok text => exact ⟨trivial, h.frames, h.store⟩
      | error f =>
        intro f' same raw
        cases same
        obtain ⟨rfl, k, inside, long⟩ :=
          Lists.text_fails h.store.values.elements _ first printed raw
        exact .inl ⟨rfl, k, .printed known print inside, long⟩
    · rename_i parameters statements home body
      split
      · exact fail s id
      · have opened : (s.world.openBlock home).1.store.Regular := h.store.openBlock home
        have given : ∀ a ∈ parameters.zip arguments, a.2.Regular := fun a ha =>
          each a.2 (List.of_mem_zip ha).2
        obtain ⟨bound, tame⟩ :=
          World.bind_regular opened (s.world.openBlock home).2 s.program.found given
        simp only
        generalize World.bind _ _ _ _ = result at bound tame ⊢
        obtain ⟨w, fault⟩ := result
        cases fault with
        | some fault =>
          intro f' same raw
          cases same
          exact (tame fault rfl raw).elim
        | none =>
          have inside : Situation.Regular { s with world := w, calls := s.calls + 1 } :=
            ⟨h.frames, bound, h.silent, h.tree⟩
          have waits : (Frame.activation n).Regular := trivial
          exact (inside.behind waits).execute (h.store.code n f parameters statements home known ‹_›)

theorem start (h : s.Regular) : (s.start env).Contains E := by
  unfold Situation.start
  have tree := h.tree
  split
  · rename_i globals functions same
    rw [same] at tree
    have slot := tree.1.1.holds tree.2.1
    apply require s slot.tame_items
    intro items listed
    exact h.go ⟨slot.items listed, tree.1.2.holds tree.2.2⟩
  · exact unfit s (.inl rfl)

theorem global (h : s.Regular) {g functions : Node Label} {rest : List (Node Label)}
    (here : g.AllRegular) (others : Node.EachRegular rest) (code : functions.Holds) :
    (s.global g rest functions env).Contains E := by
  unfold Situation.global
  split
  · exact unfit s (.inl rfl)
  · exact h.await ⟨others, code⟩ trivial
  · rename_i given
    exact h.await ⟨others, code⟩ (here.content given)
  · exact fail s id

theorem resume (h : s.Regular) {v : Value} {frame : Frame} (held : v.Regular)
    (waits : frame.Regular) :
    (s.resume v frame).Contains
      (Machine.Raises ⟨.value v, frame :: s.frames, s.calls, s.world⟩) := by
  have elements := h.store.values.elements
  cases frame with
  | global g rest functions env =>
    cases g with
    | global label name isMutable typeName value =>
      apply require s (World.tame_addFree _ _ _ _ _ _ _)
      intro w added
      have regular : (s.withWorld w).Regular :=
        ⟨h.frames, World.regular_addFree h.store held added, h.silent, h.tree⟩
      exact regular.notingText (by decide) (regular.go waits)
    | _ => exact unfit s (.inl rfl)
  | left op right node env => exact h.await held waits
  | right op left node =>
    cases result : s.world.store.lists.apply s.settings.depth op left v (some node) with
    | ok u =>
      have next : (Control.value u).Regular := Lists.regular_apply waits held result
      have came : s.resume v (.right op left node) = s.go (.value u) := by
        rw [Situation.resume, Situation.require, result]
        rfl
      rw [came]
      exact h.go next
    | error f =>
      have came : s.resume v (.right op left node) = s.fail f := by
        rw [Situation.resume, Situation.require, result]
        rfl
      rw [came]
      intro f' same raw
      cases same
      rcases Lists.apply_fails elements waits held result raw with
        ⟨rfl, k, spells, long⟩ | ⟨x, y, rfl, rfl, fails, out⟩
      · exact .inl ⟨rfl, k, .operand spells, long⟩
      · rcases out with rfl | rfl
        · exact .inr ⟨_, rfl, .inl rfl, .intro fails⟩
        · exact .inr ⟨_, rfl, .inr rfl, .intro fails⟩
  | test decisive left right env =>
    apply requireBoolean s
    intro b
    split
    · exact h.go trivial
    · exact h.await trivial waits
  | boolean e =>
    apply requireBoolean s
    intro b
    exact h.go trivial
  | index list node =>
    simp only [Situation.resume]
    refine requireIndex s (fun i => ?_) fun n same outside long => ?_
    · have next : (Control.value ((s.world.store.lists[list]?.getD #[])[i]?.getD .nil)).Regular :=
        h.store.values.read trivial list i
      exact h.go next
    · subst same
      exact .inl ⟨rfl, n, .read outside, long⟩
  | argument name done rest node env =>
    obtain ⟨each, others⟩ := waits
    have each' : ∀ u ∈ v :: done, u.Regular := List.forall_mem_cons.2 ⟨held, each⟩
    cases rest with
    | nil => exact h.invoke fun u hu => each' u (List.mem_reverse.1 hu)
    | cons e rest => exact h.await ⟨each', others.2⟩ others.1
  | element done rest env =>
    obtain ⟨each, others⟩ := waits
    have each' : ∀ u ∈ v :: done, u.Regular := List.forall_mem_cons.2 ⟨held, each⟩
    cases rest with
    | nil =>
      have items : ∀ u ∈ (v :: done).reverse.toArray, u.Regular := fun u hu =>
        each' u (List.mem_reverse.1 (List.mem_toArray.1 hu))
      exact (h.withStore ⟨h.store.values.newList items, h.store.code⟩).go trivial
    | cons e rest => exact h.await ⟨each', others.2⟩ others.1
  | discard => exact h.go trivial
  | declaration label name env =>
    apply require s (tame_key name)
    intro key _
    have store : (s.world.store.add env key
        ⟨name, (s.annotation label).binding.map (·.type), true, v⟩
        ((s.annotation label).binding.map (·.id))).Regular := h.store.add held
    have added := h.withStore store
    exact added.notingText (by decide) (added.go trivial)
  | assignment n offset receiver node env =>
    simp only [Situation.resume]
    split
    · exact h.go trivial
    · split
      · exact problem s
      · split
        · exact (h.withStore ⟨h.store.values.setValue held, h.store.code⟩).go trivial
        · exact requireList s fun list => h.await held waits
  | target list value receiver =>
    simp only [Situation.resume]
    refine requireIndex s (fun i => ?_) fun n same outside long => ?_
    · exact (h.withStore ⟨h.store.values.setElement waits, h.store.code⟩).go trivial
    · subst same
      exact .inl ⟨rfl, n, .written outside, long⟩
  | branch condition thenStatements elseStatements env =>
    apply requireBoolean s
    intro b
    apply h.notingText (by decide)
    apply h.enter
    cases b with
    | true => exact waits.1
    | false => exact waits.2
  | subject cases env =>
    apply require s waits.tame_items
    intro cases listed
    exact h.select held none (by simp) (waits.items listed)
  | case subject default case rest env =>
    obtain ⟨kept, fallback, here, others⟩ := waits
    have tame : Tame (s.world.store.lists.equal s.settings.depth v subject) := by
      intro f fails
      rw [Lists.equal_fails elements _ held kept fails]
      exact id
    apply require s tame
    intro same _
    split
    · exact h.take here
    · exact h.select kept default fallback others
  | condition condition statements env =>
    apply requireBoolean s
    intro b
    apply h.notingText (by decide)
    cases b with
    | false => exact h.go trivial
    | true =>
      have round : (Frame.round condition statements env).Regular := waits
      simp only [↓reduceIte]
      cases s.settings.loops with
      | shared => exact (h.behind round).execute waits.2
      | perRound => exact ((h.openBlock env).behind round).execute waits.2
  | result => exact h.go held
  | activation n => exact h.leave held
  | round | rest => exact h.go held

theorem proceed (h : s.Regular) {frame : Frame} (waits : frame.Regular) :
    (s.proceed frame).Contains E := by
  cases frame with
  | rest statements env => exact h.go waits
  | round condition statements env => exact h.await waits waits.1
  | activation n => exact h.leave trivial
  | _ => exact h.go trivial

theorem unwind (h : s.Regular) {v : Value} (held : v.Regular) (frame : Frame) :
    (s.unwind v frame).Contains E := by
  cases frame with
  | activation n => exact h.leave held
  | _ => exact h.go held

theorem defineFunction (h : s.Regular) {f : Node Label} {rest : List (Node Label)}
    (here : f.AllRegular) (others : Node.EachRegular rest) :
    (s.defineFunction f rest env).Contains E := by
  cases f with
  | function label name parameters returnTypeName statements =>
    have slot := here.1.1.holds here.2.1
    have code := here.1.2.holds here.2.2
    refine require s (slot.tame_items.bind fun items => (Node.tame_headerTypes _ items).bind
      fun header => (tame_resolveOptional _ _).bind fun returns => (tame_key name).bind
      fun key => .ok) ?_
    rintro ⟨header, returns, key⟩ _
    have coded : ∀ (parameters' : List (Declared Label)) (statements' : Node Label) (home : Env),
        Body.code (header.map (·.1)) statements env = .code parameters' statements' home →
          statements'.Holds := by
      intro _ _ _ same
      cases same
      exact code
    simp only
    split
    · exact problem s
    · rename_i store n defined
      have kept := h.withStore (h.store.defineFunction coded defined)
      exact kept.noting (by decide) (kept.go others)
  | _ => exact unfit s (.inl rfl)

end Situation.Regular

/-- A step goes on with values and code as texts have them. Of the raw faults it ends with one of
two: an integer is too long to be shown, or a decimal is out of range or of space. -/
theorem Machine.Regular.step {m : Machine} (h : m.Regular) {settings : Settings}
    (silent : settings.debug = 0) {program : Annotated} (tree : program.tree.AllRegular) :
    (m.step settings program).Contains m.Raises := by
  obtain ⟨control, frames, calls, w⟩ := m
  obtain ⟨next, waiting, store⟩ := h
  have regular : ∀ K : List Frame, (∀ f ∈ K, f.Regular) →
      Situation.Regular ⟨settings, program, K, calls, w⟩ :=
    fun K waiting => ⟨waiting, store, silent, tree⟩
  have here := regular frames waiting
  have ended : ∀ (v : Value) (E : Fault → Prop), (Step.halt w (.ok v)).Contains E := by
    intro v E f same
    cases same
  cases control with
  | start env => exact here.start
  | globals rest functions env =>
    cases rest with
    | nil =>
      refine Situation.Regular.require _ next.2.tame_items fun items listed => ?_
      exact here.go (next.2.items listed)
    | cons g rest => exact here.global next.1.1 next.1.2 next.2
  | functions rest env =>
    cases rest with
    | nil => exact here.go trivial
    | cons f rest => exact here.defineFunction next.1 next.2
  | main env =>
    simp only [Machine.step]
    split
    · exact here.go (by simp [Control.Regular])
    · exact Situation.Regular.problem _
  | evaluate e env => exact here.evaluate next
  | execute statements env => exact here.executeAll next
  | call n arguments => exact here.call next
  | value v =>
    cases frames with
    | nil => exact ended _ _
    | cons frame frames =>
      obtain ⟨waits, others⟩ := List.forall_mem_cons.1 waiting
      exact (regular frames others).resume next waits
  | ended =>
    cases frames with
    | nil => exact ended _ _
    | cons frame frames =>
      obtain ⟨waits, others⟩ := List.forall_mem_cons.1 waiting
      exact (regular frames others).proceed waits
  | leave v =>
    cases frames with
    | nil => exact ended _ _
    | cons frame frames =>
      obtain ⟨waits, others⟩ := List.forall_mem_cons.1 waiting
      exact (regular frames others).unwind next frame

end PlcLang
