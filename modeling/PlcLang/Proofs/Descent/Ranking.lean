import PlcLang.Proofs.Descent.Numbers

namespace PlcLang

/-- A program with its functions one after another. In a straight one a function calls only those
before it, otherwise also itself. -/
structure Ranking where
  globals : List (Node Label)
  functions : List (Node Label)
  straight : Bool

namespace Ranking

variable (R : Ranking)

/-- How many functions, from the first on, the code of a function may call. -/
def reach (i : Nat) : Nat :=
  if R.straight then i else i + 1

/-- A node stands where the first `r` functions may be called. -/
def Fits (r : Nat) (n : Node Label) : Prop :=
  n.AsksBelow R.functions r ∧ (R.straight = true → n.isLoop = false)

abbrev Admits (r : Nat) (n : Node Label) : Prop :=
  n.Every (R.Fits r)

abbrev AdmitsAll (r : Nat) (ns : List (Node Label)) : Prop :=
  Node.EveryOne (R.Fits r) ns

/-- The tree of the program. -/
def tree : Node Label :=
  .source (.list R.globals) (.list R.functions)

/-- The functions of the program are called in order. -/
structure Sorted : Prop where
  globals : R.AdmitsAll 0 R.globals
  code : ∀ (i : Nat) (f : Node Label), R.functions[i]? = some f →
    ∃ label name parameters returnTypeName statements,
      f = .function label name (.list parameters) returnTypeName statements ∧
        R.Admits (R.reach i) statements

/-- What a frame has still to run stands where the first `r` functions may be called. -/
def AdmitsFrame (r : Nat) : Frame → Prop
  | .global .. => False
  | .left _ right _ _ => R.Admits r right
  | .test _ _ right _ => R.Admits r right
  | .argument name done rest _ _ =>
    R.AdmitsAll r rest ∧ ∀ key i f, name.key? = some key → R.functions[i]? = some f →
      f.offers? = some (key, done.length + 1 + rest.length) → i < r
  | .element _ rest _ => R.AdmitsAll r rest
  | .assignment _ offset _ _ _ => R.Admits r offset
  | .branch _ first second _ => R.Admits r first ∧ R.Admits r second
  | .subject cases _ => R.Admits r cases
  | .case _ default branch rest _ =>
    (∀ b ∈ default, R.Admits r b) ∧ R.Admits r branch ∧ R.AdmitsAll r rest
  | .condition condition statements _ => R.Admits r (.loop condition statements)
  | .round condition statements _ => R.Admits r (.loop condition statements)
  | .rest statements _ => R.AdmitsAll r statements
  | _ => True

/-- What is done next stands where the first `r` functions may be called. -/
def AdmitsControl (r : Nat) : Control → Prop
  | .evaluate e _ => R.Admits r e
  | .execute statements _ => R.AdmitsAll r statements
  | .call n _ => n < r + 2
  | .value _ => True
  | .ended => True
  | .leave _ => True
  | _ => False

/-- Frames wait for what stands where the first `r` functions may be called; those of the program
that are there to be called are `defined`. -/
inductive Waits (defined : List (Node Label)) : List Frame → Nat → Prop where
  | bottom : Waits defined [] defined.length
  | global {g : Node Label} {rest : List (Node Label)} {env : Env} (none : defined = [])
      (others : R.AdmitsAll 0 rest) : Waits defined [.global g rest (.list R.functions) env] 0
  | frame {f : Frame} {K : List Frame} {r : Nat} (inside : f.activation? = none)
      (admits : R.AdmitsFrame r f) (below : Waits defined K r) : Waits defined (f :: K) r
  | call {i r : Nat} {K : List Frame} (descends : i < r) (below : Waits defined K r) :
      Waits defined (.activation (i + 2) :: K) (R.reach i)

/-- The points of a run: its start, its globals, the definitions of its functions, the call of
`main`, and all that is evaluated or executed. -/
inductive Point : Machine → Prop where
  | start {w : World} (numbers : w.store.Numbers []) : Point (.initial ⟨1, []⟩ w)
  | globals {rest : List (Node Label)} {env : Env} {w : World} (admits : R.AdmitsAll 0 rest)
      (numbers : w.store.Numbers []) :
      Point ⟨.globals rest (.list R.functions) env, [], 0, w⟩
  | functions {defined rest : List (Node Label)} {env : Env} {w : World}
      (whole : R.functions = defined ++ rest) (numbers : w.store.Numbers defined) :
      Point ⟨.functions rest env, [], 0, w⟩
  | main {env : Env} {w : World} (numbers : w.store.Numbers R.functions) :
      Point ⟨.main env, [], 0, w⟩
  | running {defined : List (Node Label)} {c : Control} {K : List Frame} {n r : Nat} {w : World}
      (part : defined <+: R.functions) (numbers : w.store.Numbers defined)
      (admits : R.AdmitsControl r c) (waits : R.Waits defined K r)
      (calls : n = (K.filterMap Frame.activation?).length) : Point ⟨c, K, n, w⟩

variable {R} {s : Store} {defined : List (Node Label)} {c c' : Control} {K K' : List Frame}
  {n n' r : Nat} {env : Env}

/-- A settled machine has nothing to run itself. -/
theorem admitsControl_of_settled (done : c.isSettled = true) : R.AdmitsControl r c := by
  cases c with
  | value | ended | leave => exact trivial
  | _ => cases done

theorem Waits.behind {f : Frame} (h : R.Waits defined (f :: K) r) : ∃ r', R.Waits defined K r' := by
  cases h with
  | global none =>
    subst none
    exact ⟨_, .bottom⟩
  | frame _ _ below | call _ below => exact ⟨_, below⟩

/-- A statement that starts stands where the whole of it stands. -/
theorem admits_of_starts {statement : Node Label} {f : Frame} (starts : statement.Starts env c f)
    (admits : R.Admits r statement) :
    R.AdmitsControl r c ∧ R.AdmitsFrame r f ∧ f.activation? = none := by
  cases starts with
  | expression => exact ⟨admits.2, trivial, rfl⟩
  | declaration => exact ⟨admits.2, trivial, rfl⟩
  | bare => exact ⟨trivial, trivial, rfl⟩
  | assignment => exact ⟨admits.2.2, admits.2.1.2, rfl⟩
  | conditional => exact ⟨admits.2.1, admits.2.2, rfl⟩
  | switch => exact ⟨admits.2.1, admits.2.2, rfl⟩
  | loop => exact ⟨admits.2.1, admits, rfl⟩
  | ret => exact ⟨admits.2, trivial, rfl⟩

theorem Waits.selects {default : Option (Node Label)} {branches : List (Node Label)}
    (waits : R.Waits defined K r) (selects : Selects env K default branches c K')
    (fallback : ∀ b ∈ default, R.Admits r b) (each : R.AdmitsAll r branches) :
    R.AdmitsControl r c ∧ R.Waits defined K' r ∧
      K'.filterMap Frame.activation? = K.filterMap Frame.activation? := by
  induction selects with
  | none => exact ⟨trivial, waits, rfl⟩
  | default listed => exact ⟨(fallback _ rfl).2.2.items listed, waits, rfl⟩
  | skip others ih =>
    refine ih (fun b hb => ?_) each.2
    cases hb
    exact each.1
  | test given =>
    exact ⟨each.1.content given, .frame rfl ⟨fallback, each.1, each.2⟩ waits, rfl⟩

/-- A function that is defined is where it stands in the program. -/
theorem getElem?_of_part {i : Nat} {f : Node Label} (part : defined <+: R.functions)
    (here : defined[i]? = some f) : R.functions[i]? = some f := by
  obtain ⟨rest, whole⟩ := part
  have inside := (List.getElem?_eq_some_iff.1 here).1
  rw [← whole, List.getElem?_append_left inside, here]

/-- A name that is found among the functions defined so far stands for one that may be called. -/
theorem lt_of_found (numbers : s.Numbers defined) (part : defined <+: R.functions)
    {sign : Key × Nat} {k : Nat}
    (asks : ∀ i f, R.functions[i]? = some f → f.offers? = some sign → i < r)
    (found : (s.block 1).functions.lookup sign = some k) : k < r + 2 := by
  rcases numbers.names sign k found with early | ⟨i, f, rfl, here, offers⟩
  · omega
  · have lt := asks i f (getElem?_of_part part here) offers
    omega

variable {w w' : World}

/-- A step of what is evaluated or executed leads to the next point. -/
theorem Point.moves (sorted : R.Sorted) (rooted : Machine.Rooted ⟨c, K, n, w⟩)
    (part : defined <+: R.functions) (numbers : w.store.Numbers defined)
    (admits : R.AdmitsControl r c) (waits : R.Waits defined K r)
    (calls : n = (K.filterMap Frame.activation?).length)
    (moves : Moves w.store c K n c' K' n') (on : w'.store.On w.store.ready) :
    R.Point ⟨c', K', n', w'⟩ := by
  have numbers' := numbers.moved on
  have go {c' : Control} {K' : List Frame} {r' : Nat} (admits : R.AdmitsControl r' c')
      (waits : R.Waits defined K' r')
      (same : (K'.filterMap Frame.activation?) = K.filterMap Frame.activation?) :
      R.Point ⟨c', K', n, w'⟩ :=
    .running part numbers' admits waits (calls.trans (congrArg List.length same.symm))
  cases moves with
  | settle busy done => exact go (admitsControl_of_settled done) waits rfl
  | finish ready done inside =>
    obtain ⟨r', below⟩ := waits.behind
    exact go (admitsControl_of_settled (r := r') done) below (by simp [inside])
  | result ready =>
    obtain ⟨r', below⟩ := waits.behind
    refine .running (r := r') part numbers' trivial below ?_
    rw [calls]
    rfl
  | start | globalValue | globalBare | functions | main | callMain => exact admits.elim
  | globalDone =>
    cases waits with
    | global none others =>
      subst none
      subst calls
      exact .globals others numbers'
    | frame _ admits => exact admits.elim
  | group => exact go admits.2 waits rfl
  | left => exact go admits.2.1 (.frame rfl admits.2.2 waits) rfl
  | right =>
    cases waits with
    | frame _ second below => exact go second (.frame rfl trivial below) rfl
  | test => exact go admits.2.1 (.frame rfl admits.2.2 waits) rfl
  | boolean =>
    cases waits with
    | frame _ second below => exact go second (.frame rfl trivial below) rfl
  | index => exact go admits.2 (.frame rfl trivial waits) rfl
  | @plainCall label name key k env K n isName found =>
    rw [rooted.invokes env .first] at found
    refine go (lt_of_found numbers part (fun i f there offers => ?_) found) waits rfl
    exact admits.1.1 _ i f (by simp [Node.asks?, isName]) there offers
  | @firstArgument label name e rest env K n =>
    refine go admits.2.2.1 (.frame rfl ⟨admits.2.2.2, fun key i f isName there offers => ?_⟩ waits)
      rfl
    refine admits.1.1 _ i f ?_ there offers
    simp only [Node.asks?, isName, Option.map_some, List.length_cons, List.length_nil]
    rw [Nat.zero_add, Nat.add_comm]
  | @nextArgument v name done e node rest env K n =>
    cases waits with
    | frame _ admits below =>
      obtain ⟨others, asks⟩ := admits
      refine go others.1 (.frame rfl ⟨others.2, fun key i f isName there offers => ?_⟩ below) rfl
      refine asks key i f isName there (offers.trans ?_)
      simp only [List.length_cons]
      rw [Nat.add_assoc _ 1, Nat.add_comm 1]
  | lastArgument isName found =>
    cases waits with
    | frame _ admits below =>
      rw [rooted.invokes _ .last] at found
      exact go (lt_of_found numbers part (admits.2 _ · · isName) found) below rfl
  | enter known body listed =>
    obtain ⟨i, _, _, _, _, rfl, here⟩ := numbers.defined_of_code known body
    obtain ⟨_, _, _, _, _, same, code⟩ := sorted.code i _ (getElem?_of_part part here)
    cases same
    have lt : i + 2 < r + 2 := admits
    refine .running part numbers' (code.items listed) (.call (by omega) waits) ?_
    rw [calls]
    rfl
  | firstElement => exact go admits.2.2.1 (.frame rfl admits.2.2.2 waits) rfl
  | nextElement =>
    cases waits with
    | frame _ others below => exact go others.1 (.frame rfl others.2 below) rfl
  | @statement statement rest env c f K n starts =>
    obtain ⟨first, waiting, inside⟩ := admits_of_starts starts admits.1
    exact go first (.frame inside waiting (.frame rfl admits.2 waits)) (by simp [inside]; rfl)
  | rest =>
    cases waits with
    | frame _ others below => exact go others below rfl
  | target =>
    cases waits with
    | frame _ offset below => exact go offset (.frame rfl trivial below) rfl
  | branch listed =>
    cases waits with
    | frame _ both below =>
      rcases listed with listed | listed
      · exact go (both.1.items listed) below rfl
      · exact go (both.2.items listed) below rfl
  | subject listed selects =>
    cases waits with
    | frame _ cases below =>
      obtain ⟨next, waits, same⟩ :=
        below.selects selects (fun b hb => by cases hb) (cases.items listed)
      exact go next waits same
  | taken listed =>
    cases waits with
    | frame _ cases below => exact go (cases.2.1.2.2.items listed) below rfl
  | passed selects =>
    cases waits with
    | frame _ cases below =>
      obtain ⟨next, waits, same⟩ := below.selects selects cases.1 cases.2.2
      exact go next waits same
  | round listed =>
    cases waits with
    | frame _ loop below => exact go (loop.2.2.items listed) (.frame rfl loop below) rfl
  | again =>
    cases waits with
    | frame _ loop below => exact go loop.2.1 (.frame rfl loop below) rfl

/-- A name found in the block of the program that runs, behind the definitions of all functions. -/
theorem lt_of_main {k arity : Nat} {key : Key} (numbers : s.Numbers R.functions)
    (found : s.findFunction ⟨1, []⟩ key arity = some k) : k < R.functions.length + 2 := by
  rw [Store.findFunction_root] at found
  refine lt_of_found numbers List.prefix_rfl (fun i f there _ => ?_) found
  exact (List.getElem?_eq_some_iff.1 there).1

/-- Each step leads from a point of a run to the next. -/
theorem Point.step {settings : Settings} {found : Annotations} {m m' : Machine}
    (sorted : R.Sorted) (rooted : m.Rooted) (h : R.Point m)
    (next : m.step settings ⟨R.tree, found⟩ = .next m') :
    R.Point m' := by
  have becomes := Machine.becomes next
  cases h with
  | start numbers =>
    cases next
    exact .globals sorted.globals numbers
  | @globals rest env w admits numbers =>
    cases becomes with
    | move moves on =>
      have numbers := numbers.moved on
      obtain ⟨c', K', n', w'⟩ := m'
      have empty : [] <+: R.functions := List.nil_prefix
      cases moves with
      | settle busy done =>
        exact .running empty numbers (admitsControl_of_settled (r := 0) done) .bottom rfl
      | globalValue given =>
        exact .running empty numbers (admits.1.content given) (.global rfl admits.2) rfl
      | globalBare =>
        exact .running (c := .value .nil) empty numbers trivial (.global rfl admits.2) rfl
      | functions listed =>
        cases listed
        have whole : R.functions = [] ++ R.functions := rfl
        exact .functions whole numbers
  | @functions defined rest env w whole numbers =>
    cases becomes with
    | move moves on =>
      have numbers := numbers.moved on
      obtain ⟨c', K', n', w'⟩ := m'
      cases moves with
      | settle busy done =>
        exact .running ⟨rest, whole.symm⟩ numbers (admitsControl_of_settled (r := _) done) .bottom
          rfl
      | main =>
        rw [List.append_nil] at whole
        exact .main (whole ▸ numbers)
    | define takes =>
      obtain rfl := rooted.outside _ .functions
      refine .functions ?_ (numbers.takes rooted.room takes)
      rw [whole, List.append_assoc]
      rfl
  | @main env w numbers =>
    cases becomes with
    | move moves on =>
      have numbers' := numbers.moved on
      obtain ⟨c', K', n', w'⟩ := m'
      have whole : R.functions <+: R.functions := List.prefix_rfl
      cases moves with
      | settle busy done =>
        exact .running whole numbers' (admitsControl_of_settled (r := _) done) .bottom rfl
      | callMain found =>
        obtain rfl := rooted.outside _ .main
        exact .running (c := .call _ []) whole numbers' (lt_of_main numbers found) .bottom rfl
  | running part numbers admits waits calls =>
    cases becomes with
    | move moves on =>
      obtain ⟨c', K', n', w'⟩ := m'
      exact Point.moves sorted rooted part numbers admits waits calls moves on
    | define => exact admits.elim

/-- What may be called is there to be called. -/
theorem Waits.le_defined (h : R.Waits defined K r) : r ≤ defined.length := by
  induction h with
  | bottom => exact Nat.le_refl _
  | global => exact Nat.zero_le _
  | frame _ _ _ ih => exact ih
  | call descends _ ih =>
    unfold reach
    split <;> omega

/-- Open calls are of functions that the program has defined. -/
theorem Waits.active_defined (h : R.Waits defined K r) :
    ∀ n ∈ K.filterMap Frame.activation?, ∃ i, n = i + 2 ∧ i < defined.length := by
  induction h with
  | bottom | global =>
    intro n mem
    cases mem
  | frame inside _ _ ih =>
    intro n mem
    rw [List.filterMap_cons_none inside] at mem
    exact ih n mem
  | call descends below ih =>
    intro n mem
    rcases List.mem_cons.1 mem with rfl | mem
    · exact ⟨_, rfl, Nat.lt_of_lt_of_le descends below.le_defined⟩
    · exact ih n mem

/-- The function of an open call may call itself at most. -/
theorem Waits.lt_active (h : R.Waits defined K r) :
    ∀ n ∈ K.filterMap Frame.activation?, r < n := by
  induction h with
  | bottom | global =>
    intro n mem
    cases mem
  | frame inside _ _ ih =>
    intro n mem
    rw [List.filterMap_cons_none inside] at mem
    exact ih n mem
  | @call i r K descends _ ih =>
    have le : R.reach i ≤ i + 1 := by
      unfold reach
      split <;> omega
    intro n mem
    rcases List.mem_cons.1 mem with rfl | mem
    · omega
    · have lt := ih n mem
      omega

/-- No function is called from one before it. -/
theorem Waits.sorted (h : R.Waits defined K r) :
    (K.filterMap Frame.activation?).Pairwise (· ≤ ·) := by
  induction h with
  | bottom | global => exact .nil
  | frame inside _ _ ih =>
    rw [List.filterMap_cons_none inside]
    exact ih
  | @call i r K descends below ih =>
    refine .cons (fun n mem => ?_) ih
    have lt := below.lt_active n mem
    omega

/-- In a straight program each open call leaves fewer functions to be called. -/
theorem Waits.active_le (h : R.Waits defined K r) (straight : R.straight = true) :
    (K.filterMap Frame.activation?).length + r ≤ defined.length := by
  induction h with
  | bottom => simp
  | global none =>
    subst none
    exact Nat.le_refl _
  | frame inside _ _ ih =>
    rw [List.filterMap_cons_none inside]
    exact ih
  | @call i r K descends below ih =>
    have one : ((Frame.activation (i + 2) :: K).filterMap Frame.activation?).length =
        (K.filterMap Frame.activation?).length + 1 := rfl
    rw [one, reach, if_pos straight]
    omega

/-- While a global gets its value, no function of the program can be called. -/
theorem Waits.global_eq {g : Node Label} {rest : List (Node Label)} {functions : Node Label}
    (h : R.Waits defined K r) (mem : .global g rest functions env ∈ K) :
    r = 0 ∧ K.filterMap Frame.activation? = [] := by
  induction h with
  | bottom => cases mem
  | global => exact ⟨rfl, rfl⟩
  | frame inside admits _ ih =>
    rcases List.mem_cons.1 mem with rfl | mem
    · exact admits.elim
    · rw [List.filterMap_cons_none inside]
      exact ih mem
  | call descends _ ih =>
    rcases List.mem_cons.1 mem with same | mem
    · cases same
    · obtain ⟨rfl, -⟩ := ih mem
      exact (Nat.not_lt_zero _ descends).elim

end Ranking

end PlcLang
