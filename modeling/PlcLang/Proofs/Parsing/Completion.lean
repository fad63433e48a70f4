import PlcLang.Proofs.Parsing.Placement
import PlcLang.Proofs.Parsing.Programs

/-! Wherever tokens lead, there are words that go on from there to the end of a program. -/

namespace PlcLang

open Word

namespace Parser

/-- Some words lead to where a program may end. -/
def Finishable (here : Configuration × Place) : Prop :=
  ∃ ws last p, Reads here ws last ∧ last.1.program? = some p

theorem Reads.finishable {here next : Configuration × Place} {ws : List Word}
    (reads : Reads here ws next) (finishable : Finishable next) : Finishable here := by
  obtain ⟨vs, last, p, more, ends⟩ := finishable
  exact ⟨ws ++ vs, last, p, reads.append more, ends⟩

theorem isName_x : IsName "x" :=
  ⟨⟨'x', [], rfl, by decide, by simp⟩, fun k => by cases k <;> decide⟩

section

variable {G : List Global} {F : List Function} {opening : Opening} {done : List Stmt}
variable {B : List OpenBlock} {place : Place} {c : Configuration} {goal : Goal} {e : Expr}
variable {nests : List Nest} {pending : Operands}

theorem finishable_top (functionsOnly : Bool) :
    Finishable (⟨G, F, B, .top functionsOnly⟩, place) :=
  ⟨[], _, _, .nil, rfl⟩

theorem finishable_listClosed (g : Global) :
    Finishable (⟨G, F, B, .listClosed g⟩, .listClosing) :=
  Reads.finishable (Reads.mark .semicolon (by decide) fun _ => rfl) (finishable_top false)

/-! ### Blocks -/

/-- The end of a block that is no function makes a statement of it, unless it is a branch that
another must follow. -/
theorem closes_within (inner : ¬ opening.IsFunction) (last : opening.lastKeyword = .END)
    (outer : Opening) (before : List Stmt) :
    ∃ s, ∀ p, (inside G F opening done (⟨outer, before⟩ :: B)).shift ((Word.key .END).token p) =
      some (inside G F outer (s :: before) B, .statementEnd) := by
  cases opening with
  | function => exact absurd trivial inner
  | caseBranch => cases last
  | thenBranch | elseBranch | whileBody | defaultBranch => exact ⟨_, fun _ => rfl⟩

/-- Open blocks in a function are closed one after another, with a last branch for every switch. -/
theorem finishable_inside (sheltered : Sheltered (⟨opening, done⟩ :: B))
    (ends : .keyword opening.lastKeyword ∈ place.accepts) :
    Finishable (inside G F opening done B, place) := by
  induction B generalizing opening done place with
  | nil =>
    cases opening with
    | function => exact Reads.finishable (Reads.key .END ends fun _ => rfl) (finishable_top true)
    | _ => exact (sheltered.resolve_left not_false).elim
  | cons b B ih =>
    have closed {opening : Opening} {done : List Stmt} {place : Place}
        (inner : ¬ opening.IsFunction) (last : opening.lastKeyword = .END)
        (outside : Sheltered (b :: B)) (ends : .keyword .END ∈ place.accepts) :
        Finishable (inside G F opening done (b :: B), place) := by
      have closes : ∃ s, ∀ p, (inside G F opening done (b :: B)).shift ((Word.key .END).token p) =
          some (inside G F b.opening (s :: b.done) B, .statementEnd) :=
        closes_within inner last b.opening b.done
      obtain ⟨s, shift⟩ := closes
      refine (Reads.key .END ends shift).finishable ?_
      exact ih outside (lastKeyword_statementEnd b.opening)
    cases opening with
    | function => exact Reads.finishable (Reads.key .END ends fun _ => rfl) (finishable_top true)
    | caseBranch subject before value =>
      have branch : Reads (inside G F (.caseBranch subject before value) done (b :: B), place)
          [Word.key .DEFAULT] _ := Reads.key .DEFAULT ends fun _ => rfl
      exact branch.finishable
        (closed not_false rfl (sheltered.resolve_left not_false) end_blockOpening)
    | thenBranch | elseBranch | whileBody | defaultBranch =>
      exact closed not_false rfl (sheltered.resolve_left not_false) ends

/-! ### Expressions -/

/-- A whole expression outside brackets is ended as what it is read for. -/
theorem finishable_goal (done : Done c place goal [] pending e) (placed : goal.Placed c.blocks) :
    Finishable (c, place) := by
  obtain ⟨G, F, B, spot⟩ := c
  have semicolon : Terminal.symbol .semicolon ∈ Place.expressionEnd := by decide
  have does : Terminal.keyword .DO ∈ Place.expressionEnd := by decide
  cases goal with
  | element name typeName before =>
    have bracket : Reads _ [Word.mark .rsqb] _ := done.mark_whole (by decide) rfl
    exact bracket.finishable (finishable_listClosed _)
  | global name isMutable typeName =>
    exact (done.mark_whole semicolon rfl).finishable (finishable_top false)
  | ifCondition =>
    have opens : Reads _ [Word.key .DO] _ := done.key_whole does rfl
    exact opens.finishable (finishable_inside (.inr placed) end_thenOpening)
  | whileCondition =>
    have opens : Reads _ [Word.key .DO] _ := done.key_whole does rfl
    exact opens.finishable (finishable_inside (.inr placed) end_blockOpening)
  | switchSubject =>
    have opens : Reads _ [Word.key .DEFAULT] _ := done.key_whole (by decide) rfl
    exact opens.finishable (finishable_inside (.inr placed) end_blockOpening)
  | caseValue subject before =>
    have opens : Reads _ [Word.mark .colon] _ := done.mark_whole (by decide) rfl
    exact opens.finishable (finishable_inside (.inr placed) default_caseOpening)
  | declaration | result | statement | assigned =>
    cases B with
    | nil => exact placed.elim
    | cons b B =>
      have ends : Reads _ [Word.mark .semicolon] _ := done.mark_whole semicolon rfl
      exact ends.finishable (finishable_inside placed (lastKeyword_statementEnd b.opening))

/-- Brackets around an expression are closed one after another. -/
theorem finishable_done (done : Done c place goal nests pending e)
    (placed : goal.Placed c.blocks) : Finishable (c, place) := by
  induction nests generalizing c place pending e with
  | nil => exact finishable_goal done placed
  | cons nest nests ih =>
    have closed (around : Operands) (operand : Expr) : Finishable
        ({ c with spot := .expression goal nests around (.complete operand) }, .operand) :=
      ih (done_complete c goal nests around operand) placed
    cases nest with
    | group around => exact (done.mark_whole (s := .rpar) (by decide) rfl).finishable (closed _ _)
    | index name around => exact (done.mark_whole (s := .rsqb) (by decide) rfl).finishable (closed _ _)
    | arguments name before around =>
      exact (done.mark_whole (s := .rpar) (by decide) rfl).finishable (closed _ _)
    | elements before around =>
      exact (done.mark_whole (s := .rsqb) (by decide) rfl).finishable (closed _ _)

/-- Where an operand is wanted there may be `NIL`. -/
theorem finishable_ready (ready : Ready c place goal nests pending)
    (placed : goal.Placed c.blocks) : Finishable (c, place) :=
  (ready.literal (legible_key .NIL) (by decide) (fun _ _ => rfl) fun _ => rfl).finishable
    (finishable_done (done_complete c goal nests pending _) placed)

/-- Behind a sign there may be a number. -/
theorem finishable_sign (placed : goal.Placed c.blocks) :
    Finishable ({ c with spot := .expression goal nests pending .sign }, .sign) := by
  have one : Reads ({ c with spot := .expression goal nests pending .sign }, .sign) [number 1]
      ({ c with spot := .expression goal nests pending (.complete (.literal (.integer (-1)))) },
        .operand) :=
    .cons (legible_number 1) (by decide) (by decide) (fun _ => by rfl) (fun _ => by rfl) .nil
  exact one.finishable (finishable_done (done_complete c goal nests pending _) placed)

theorem finishable_expression {point : Point} (placed : goal.Placed c.blocks)
    (at_point : point.Placed place) :
    Finishable ({ c with spot := .expression goal nests pending point }, place) := by
  cases point with
  | wanted =>
    obtain rfl : place = .operandWanted := at_point
    exact finishable_ready (ready_wanted c goal nests pending) placed
  | wantedOrClosing =>
    exact finishable_ready (ready_wantedOrClosing c goal nests pending at_point) placed
  | sign =>
    obtain rfl : place = .sign := at_point
    exact finishable_sign placed
  | name text =>
    obtain rfl : place = .name := at_point
    exact finishable_done (done_name c goal nests pending text) placed
  | complete e =>
    obtain rfl : place = .operand := at_point
    exact finishable_done (done_complete c goal nests pending e) placed

/-! ### Globals, headers and declarations -/

/-- A name that is wanted may be any. -/
theorem finishable_ident {next : Configuration × Place} (wanted : .ident ∈ place.accepts)
    (shift : c.shift ((Word.ident "x").token .origin) = some next)
    (finishable : Finishable next) : Finishable (c, place) := by
  have anywhere : ∀ p, c.shift ((Word.ident "x").token p) = some next := fun p =>
    (c.shift_position ((Word.ident "x").token .origin) p).trans shift
  have name : Reads (c, place) [Word.ident "x"] next :=
    .cons (legible_ident isName_x) wanted (by simp [Word.ident]) (fun _ => rfl) anywhere .nil
  exact name.finishable finishable

theorem finishable_mark {next : Configuration × Place} (s : Symbol)
    (wanted : .symbol s ∈ place.accepts) (shift : ∀ p, c.shift ((Word.mark s).token p) = some next)
    (finishable : Finishable next) : Finishable (c, place) :=
  (Reads.mark s wanted shift).finishable finishable

theorem finishable_listEqual (name typeName : String) :
    Finishable (⟨G, F, B, .listEqual name typeName⟩, .listEqual) := by
  have placed : (Goal.element name typeName []).Placed B := trivial
  refine finishable_mark .lsqb (by decide) (fun _ => rfl) ?_
  exact finishable_expression placed operand_bracketOpening

theorem finishable_globalType (kind : GlobalKind) (name typeName : String) :
    Finishable (⟨G, F, B, .globalType kind name typeName⟩, Configuration.globalTypePlace kind) := by
  cases kind with
  | list =>
    exact finishable_mark .equal (by decide) (fun _ => rfl) (finishable_listEqual name typeName)
  | constant =>
    have placed : (Goal.global name false typeName).Placed B := trivial
    refine finishable_mark .equal (by decide) (fun _ => rfl) ?_
    exact finishable_expression placed rfl
  | mutable => exact finishable_mark .semicolon (by decide) (fun _ => rfl) (finishable_top false)

theorem finishable_globalColon (kind : GlobalKind) (name : String) :
    Finishable (⟨G, F, B, .globalColon kind name⟩, .nameWanted) := by
  refine finishable_ident (by decide) rfl ?_
  exact finishable_globalType kind name _

theorem finishable_globalName (kind : GlobalKind) (name : String) :
    Finishable (⟨G, F, B, .globalName kind name⟩, .variableName) :=
  finishable_mark .colon (by decide) (fun _ => rfl) (finishable_globalColon kind name)

theorem finishable_headerClosed (name : String) (parameters : List Parameter) :
    Finishable (⟨G, F, B, .headerClosed name parameters⟩, .functionClosing) :=
  Reads.finishable (Reads.key .DO (by decide) fun _ => rfl)
    (finishable_inside (.inl trivial) end_blockOpening)

theorem finishable_resultType (name : String) (parameters : List Parameter) (result : String) :
    Finishable (⟨G, F, B, .resultType name parameters result⟩, .resultType) :=
  Reads.finishable (Reads.key .DO (by decide) fun _ => rfl)
    (finishable_inside (.inl trivial) end_blockOpening)

theorem finishable_parameterType (name : String) (parameters : List Parameter) :
    Finishable (⟨G, F, B, .parameterType name parameters⟩, .parameterType) :=
  finishable_mark .rpar (by decide) (fun _ => rfl) (finishable_headerClosed name _)

theorem finishable_parameterColon (name : String) (parameters : List Parameter)
    (parameter : String) :
    Finishable (⟨G, F, B, .parameterColon name parameters parameter⟩, .nameWanted) := by
  refine finishable_ident (by decide) rfl ?_
  exact finishable_parameterType name _

theorem finishable_parameterName (name : String) (parameters : List Parameter)
    (parameter : String) :
    Finishable (⟨G, F, B, .parameterName name parameters parameter⟩, .variableName) :=
  finishable_mark .colon (by decide) (fun _ => rfl) (finishable_parameterColon name _ _)

theorem finishable_firstParameter (name : String) :
    Finishable (⟨G, F, B, .firstParameter name⟩, .functionOpening) :=
  finishable_mark .rpar (by decide) (fun _ => rfl) (finishable_headerClosed name [])

theorem finishable_functionName (name : String) :
    Finishable (⟨G, F, B, .functionName name⟩, .functionName) :=
  finishable_mark .lpar (by decide) (fun _ => rfl) (finishable_firstParameter name)

/-- A declaration needs no value. -/
theorem finishable_letName (sheltered : Sheltered B) (name : String) :
    Finishable (⟨G, F, B, .letName name⟩, .letName) := by
  cases B with
  | nil => exact sheltered.elim
  | cons b B =>
    refine finishable_mark .semicolon (by decide) (fun _ => rfl) ?_
    exact finishable_inside sheltered (lastKeyword_statementEnd b.opening)

theorem finishable_letType (sheltered : Sheltered B) (name typeName : String) :
    Finishable (⟨G, F, B, .letType name typeName⟩, .variableType) := by
  cases B with
  | nil => exact sheltered.elim
  | cons b B =>
    refine finishable_mark .semicolon (by decide) (fun _ => rfl) ?_
    exact finishable_inside sheltered (lastKeyword_statementEnd b.opening)

/-- Wherever the place fits the spot, there is a way to the end of a program. -/
theorem Configuration.Placed.finishable (placed : c.Placed place) : Finishable (c, place) := by
  obtain ⟨G, F, B, spot⟩ := c
  have at_spot : spot.Placed B place := placed
  cases spot with
  | top functionsOnly => exact finishable_top functionsOnly
  | globalKind kind =>
    obtain rfl := at_spot
    refine finishable_ident (by decide) rfl ?_
    exact finishable_globalName kind _
  | globalName kind name =>
    obtain rfl := at_spot
    exact finishable_globalName kind name
  | globalColon kind name =>
    obtain rfl := at_spot
    exact finishable_globalColon kind name
  | globalType kind name typeName =>
    obtain rfl := at_spot
    exact finishable_globalType kind name typeName
  | listEqual name typeName =>
    obtain rfl := at_spot
    exact finishable_listEqual name typeName
  | listClosed g =>
    obtain rfl := at_spot
    exact finishable_listClosed g
  | functionKeyword =>
    obtain rfl := at_spot
    refine finishable_ident (by decide) rfl ?_
    exact finishable_functionName _
  | functionName name =>
    obtain rfl := at_spot
    exact finishable_functionName name
  | firstParameter name =>
    obtain rfl := at_spot
    exact finishable_firstParameter name
  | nextParameter name parameters =>
    obtain rfl := at_spot
    refine finishable_ident (by decide) rfl ?_
    exact finishable_parameterName name parameters _
  | parameterName name parameters parameter =>
    obtain rfl := at_spot
    exact finishable_parameterName name parameters parameter
  | parameterColon name parameters parameter =>
    obtain rfl := at_spot
    exact finishable_parameterColon name parameters parameter
  | parameterType name parameters =>
    obtain rfl := at_spot
    exact finishable_parameterType name parameters
  | headerClosed name parameters =>
    obtain rfl := at_spot
    exact finishable_headerClosed name parameters
  | resultColon name parameters =>
    obtain rfl := at_spot
    refine finishable_ident (by decide) rfl ?_
    exact finishable_resultType name parameters _
  | resultType name parameters result =>
    obtain rfl := at_spot
    exact finishable_resultType name parameters result
  | statement =>
    obtain ⟨sheltered, ends⟩ := at_spot
    cases B with
    | nil => exact sheltered.elim
    | cons b B => exact finishable_inside sheltered (ends b rfl)
  | letKeyword =>
    obtain ⟨rfl, sheltered⟩ := at_spot
    refine finishable_ident (by decide) rfl ?_
    exact finishable_letName sheltered _
  | letName name =>
    obtain ⟨rfl, sheltered⟩ := at_spot
    exact finishable_letName sheltered name
  | letColon name =>
    obtain ⟨rfl, sheltered⟩ := at_spot
    refine finishable_ident (by decide) rfl ?_
    exact finishable_letType sheltered name _
  | letType name typeName =>
    obtain ⟨rfl, sheltered⟩ := at_spot
    exact finishable_letType sheltered name typeName
  | expression goal nests pending point =>
    exact finishable_expression (c := ⟨G, F, B, .top false⟩) at_spot.1 at_spot.2

end

end Parser

end PlcLang
