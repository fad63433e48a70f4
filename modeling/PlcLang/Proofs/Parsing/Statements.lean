import PlcLang.Proofs.Parsing.Expressions

/-! The words of statements are read as the statements. -/

namespace PlcLang

open Word

namespace Parser

/-- A configuration between the statements of a block. -/
def inside (G : List Global) (F : List Function) (opening : Opening) (done : List Stmt)
    (B : List OpenBlock) : Configuration :=
  ⟨G, F, ⟨opening, done⟩ :: B, .statement⟩

/-- A configuration in which an expression is wanted, and its place. -/
def begun (G : List Global) (F : List Function) (B : List OpenBlock) (goal : Goal) :
    Configuration × Place :=
  (⟨G, F, B, .expression goal [] [] .wanted⟩, .operandWanted)

/-- A place where a statement may begin. -/
def Begins (place : Place) : Prop :=
  ∀ t ∈ Place.statementStart, t ∈ place.accepts

variable {G : List Global} {F : List Function} {opening : Opening} {done : List Stmt}
variable {B : List OpenBlock} {place : Place} {c : Configuration} {goal : Goal} {e : Expr}

theorem begins_statementEnd : Begins .statementEnd :=
  fun _ h => List.mem_append_left _ h

theorem begins_blockOpening : Begins .blockOpening :=
  fun _ h => List.mem_append_left _ h

theorem begins_thenOpening : Begins .thenOpening :=
  fun _ h => List.mem_append_left _ h

theorem begins_caseOpening : Begins .caseOpening :=
  fun _ h => List.mem_append_left _ h

theorem Begins.ready (begins : Begins place) :
    Ready (inside G F opening done B) place .statement [] [] :=
  ready_statement (inside G F opening done B) fun t h => begins t (List.mem_append_left _ h)

/-- A keyword that begins a statement with an expression. -/
theorem Begins.expression (begins : Begins place) {k : Keyword}
    (start : .keyword k ∈ Place.statementStart)
    (leads : ∀ p, (inside G F opening done B).shiftStatement ((Word.key k).token p) =
      (inside G F opening done B).startExpression goal) :
    Reads (inside G F opening done B, place) [Word.key k]
      (begun G F (⟨opening, done⟩ :: B) goal) :=
  Reads.key k (begins _ start) leads

/-- A whole expression that is read for a goal. -/
theorem expr_whole (shaped : e.Shaped .written) (goal : Goal) :
    ∃ spot place, Reads (begun G F B goal) e.words (⟨G, F, B, spot⟩, place) ∧ Done ⟨G, F, B, spot⟩ place goal [] [] e :=
  expr_gets e shaped (ready_wanted ⟨G, F, B, .statement⟩ goal [] []) (by simp)

/-- The same up to the mark behind it. -/
theorem expr_marked (shaped : e.Shaped .written) (goal : Goal) {s : Symbol}
    (ends : .symbol s ∈ Place.expressionEnd) (plain : s.operator? = none)
    {next : Configuration × Place}
    (leads : ∀ spot, Configuration.finishGoal ⟨G, F, B, spot⟩ e goal (.symbol s) = some next) :
    Reads (begun G F B goal) (e.words ++ [Word.mark s])
      next := by
  obtain ⟨spot, place, reads, done⟩ : ∃ spot place, Reads (begun G F B goal) e.words
      (⟨G, F, B, spot⟩, place) ∧ Done ⟨G, F, B, spot⟩ place goal [] [] e := expr_whole shaped goal
  refine reads.append (done.mark ends ?_)
  rw [Configuration.afterOperand]
  simp only [plain]
  exact leads spot

/-- The same up to the keyword behind it. -/
theorem expr_keyed (shaped : e.Shaped .written) (goal : Goal) {k : Keyword}
    (ends : .keyword k ∈ Place.expressionEnd) {next : Configuration × Place}
    (leads : ∀ spot, Configuration.finishGoal ⟨G, F, B, spot⟩ e goal (.keyword k) = some next) :
    Reads (begun G F B goal) (e.words ++ [Word.key k])
      next := by
  obtain ⟨spot, place, reads, done⟩ : ∃ spot place, Reads (begun G F B goal) e.words
      (⟨G, F, B, spot⟩, place) ∧ Done ⟨G, F, B, spot⟩ place goal [] [] e := expr_whole shaped goal
  exact reads.append (done.key ends (leads spot))

/-- Where the branches of a switch are read next. -/
structure Branches (c : Configuration) (place : Place) (G : List Global) (F : List Function)
    (B : List OpenBlock) (subject : Expr) (done : List Case) : Prop where
  case : Reads (c, place) [Word.key .CASE]
    (begun G F B (.caseValue subject done))
  default : Reads (c, place) [Word.key .DEFAULT]
    (inside G F (.defaultBranch subject done) [] B, .blockOpening)

/-- A value that may be left out, and the semicolon behind it. -/
theorem reads_value {value : Option Expr} (shaped : ∀ e ∈ value, e.Shaped .written) (goal : Goal)
    (next : Option Expr → Configuration × Place)
    (wanted : .symbol .equal ∈ place.accepts ∧ .symbol .semicolon ∈ place.accepts)
    (equal : ∀ p, c.shift ((Word.mark .equal).token p) =
      some (begun G F B goal))
    (semicolon : ∀ p, c.shift ((Word.mark .semicolon).token p) = some (next none))
    (finish : ∀ e spot, Configuration.finishGoal ⟨G, F, B, spot⟩ e goal (.symbol .semicolon) =
      some (next (some e))) :
    Reads (c, place) (valueWords value ++ [Word.mark .semicolon]) (next value) := by
  cases value with
  | none => exact Reads.mark .semicolon wanted.2 semicolon
  | some e =>
    have opens : Reads (c, place) [Word.mark .equal] _ := Reads.mark .equal wanted.1 equal
    exact opens.append (expr_marked (shaped e rfl) goal (by decide) rfl (finish e))

/-- A declaration, with or without a type and a value. -/
theorem declaration_reads {name : String} {typeName : Option String} {value : Option Expr}
    (named : IsName name) (typed : ∀ t ∈ typeName, IsName t)
    (shaped : ∀ e ∈ value, e.Shaped .written) (begins : Begins place) :
    Reads (inside G F opening done B, place) (Stmt.declaration name typeName value).words
      (inside G F opening (.declaration name typeName value :: done) B, .statementEnd) := by
  let next (value : Option Expr) : Configuration × Place :=
    (inside G F opening (.declaration name typeName value :: done) B, .statementEnd)
  have keyword : Reads (inside G F opening done B, place) [Word.key .LET]
      (⟨G, F, ⟨opening, done⟩ :: B, .letKeyword⟩, .nameWanted) :=
    Reads.key .LET (begins _ (by decide)) fun _ => rfl
  have variable_name := Reads.ident (c := ⟨G, F, ⟨opening, done⟩ :: B, .letKeyword⟩) named
    (show Terminal.ident ∈ Place.nameWanted.accepts by decide)
    (fun name => (⟨G, F, ⟨opening, done⟩ :: B, .letName name⟩, .letName)) fun _ => rfl
  have start := keyword.append variable_name
  cases typeName with
  | none =>
    have rest : Reads (⟨G, F, ⟨opening, done⟩ :: B, .letName name⟩, .letName) _ _ :=
      reads_value shaped (.declaration name none) next (by decide) (fun _ => rfl) (fun _ => rfl)
        fun _ _ => rfl
    exact start.append rest
  | some t =>
    have colon : Reads (⟨G, F, ⟨opening, done⟩ :: B, .letName name⟩, .letName)
        [Word.mark .colon] (⟨G, F, ⟨opening, done⟩ :: B, .letColon name⟩, .nameWanted) :=
      Reads.mark .colon (by decide) fun _ => rfl
    have type_name := Reads.ident (c := ⟨G, F, ⟨opening, done⟩ :: B, .letColon name⟩) (typed t rfl)
      (show Terminal.ident ∈ Place.nameWanted.accepts by decide)
      (fun t => (⟨G, F, ⟨opening, done⟩ :: B, .letType name t⟩, .variableType)) fun _ => rfl
    have rest : Reads (⟨G, F, ⟨opening, done⟩ :: B, .letType name t⟩, .variableType) _ _ :=
      reads_value shaped (.declaration name (some t)) next (by decide) (fun _ => rfl)
        (fun _ => rfl) fun _ _ => rfl
    exact ((start.append colon).append type_name).append rest

/-- A keyword behind the statements of a block. -/
theorem reads_behind {body : List Stmt} {place' : Place}
    (behind : place' = place ∨ place' = .statementEnd) {k : Keyword}
    (wanted : .keyword k ∈ place.accepts ∧ .keyword k ∈ Place.statementEnd.accepts)
    {next : Configuration × Place}
    (leads : ∀ p, (inside G F opening body.reverse B).shift ((Word.key k).token p) = some next) :
    Reads (inside G F opening (body.reverse ++ []) B, place') [Word.key k] next := by
  rw [List.append_nil]
  refine Reads.key k ?_ leads
  rcases behind with rfl | rfl
  · exact wanted.1
  · exact wanted.2

theorem shift_end (p : Position) :
    (inside G F opening done B).shift ((Word.key .END).token p) =
      (inside G F opening done B).closeBlock :=
  rfl

theorem shift_branch {k : Keyword} (branch : k = .ELSE ∨ k = .CASE ∨ k = .DEFAULT) (p : Position) :
    (inside G F opening done B).shift ((Word.key k).token p) =
      (inside G F opening done B).nextBranch k := by
  rcases branch with rfl | rfl | rfl <;> rfl

section

variable {body : List Stmt} {condition subject value : Expr} {cases : List Case}

theorem closeBlock_then (p : Position) :
    (inside G F (.thenBranch condition) body.reverse (⟨opening, done⟩ :: B)).shift
        ((Word.key .END).token p) =
      some (inside G F opening (.conditional condition body [] :: done) B, .statementEnd) := by
  rw [shift_end]
  simp [Configuration.closeBlock, Configuration.addStatement, inside]

theorem closeBlock_else {thenBody : List Stmt} (p : Position) :
    (inside G F (.elseBranch condition thenBody) body.reverse (⟨opening, done⟩ :: B)).shift
        ((Word.key .END).token p) =
      some (inside G F opening (.conditional condition thenBody body :: done) B,
        .statementEnd) := by
  rw [shift_end]
  simp [Configuration.closeBlock, Configuration.addStatement, inside]

theorem closeBlock_while (p : Position) :
    (inside G F (.whileBody condition) body.reverse (⟨opening, done⟩ :: B)).shift
        ((Word.key .END).token p) =
      some (inside G F opening (.loop condition body :: done) B, .statementEnd) := by
  rw [shift_end]
  simp [Configuration.closeBlock, Configuration.addStatement, inside]

theorem closeBlock_default (p : Position) :
    (inside G F (.defaultBranch subject cases) body.reverse (⟨opening, done⟩ :: B)).shift
        ((Word.key .END).token p) =
      some (inside G F opening (.switch subject (cases.reverse ++ [.mk none body]) :: done) B,
        .statementEnd) := by
  rw [shift_end]
  simp [Configuration.closeBlock, Configuration.addStatement, inside]

theorem nextBranch_else (p : Position) :
    (inside G F (.thenBranch condition) body.reverse B).shift ((Word.key .ELSE).token p) =
      some (inside G F (.elseBranch condition body) [] B, .blockOpening) := by
  rw [shift_branch (by simp)]
  simp [Configuration.nextBranch, Configuration.openBlock, inside]

theorem nextBranch_case (p : Position) :
    (inside G F (.caseBranch subject cases value) body.reverse B).shift
        ((Word.key .CASE).token p) =
      some (begun G F B (.caseValue subject (.mk (some value) body :: cases))) := by
  rw [shift_branch (by simp)]
  simp [Configuration.nextBranch, Configuration.startExpression, Configuration.goTo, begun, inside]

theorem nextBranch_default (p : Position) :
    (inside G F (.caseBranch subject cases value) body.reverse B).shift
        ((Word.key .DEFAULT).token p) =
      some (inside G F (.defaultBranch subject (.mk (some value) body :: cases)) [] B,
        .blockOpening) := by
  rw [shift_branch (by simp)]
  simp [Configuration.nextBranch, Configuration.openBlock, inside]

end

mutual
/-- The words of a statement add it to the block. -/
theorem stmt_reads : (s : Stmt) → s.Shaped .written →
    ∀ G F opening done B {place}, Begins place →
      Reads (inside G F opening done B, place) s.words
        (inside G F opening (s :: done) B, .statementEnd)
  | .expression e, shaped, G, F, opening, done, B, place, begins => by
    have ready : Ready (inside G F opening done B) place .statement [] [] := begins.ready
    obtain ⟨spot, place', reads, finished⟩ := expr_gets e shaped ready (by simp)
    exact reads.append (finished.mark (by decide) rfl)
  | .declaration _ _ _, ⟨named, typed, shaped⟩, G, F, opening, done, B, place, begins =>
    declaration_reads named typed shaped begins
  | .assignment receiver value, ⟨shapedReceiver, shapedValue⟩, G, F, opening, done, B, place,
      begins => by
    have ready : Ready (inside G F opening done B) place .statement [] [] := begins.ready
    obtain ⟨spot, place', reads, finished⟩ := expr_gets receiver shapedReceiver ready (by simp)
    have equal : Reads ({ inside G F opening done B with spot := spot }, place')
        [Word.mark .equal] (begun G F (⟨opening, done⟩ :: B) (.assigned receiver)) :=
      finished.mark (by decide) rfl
    have rest : Reads (begun G F (⟨opening, done⟩ :: B) (.assigned receiver))
        (value.words ++ [Word.mark .semicolon])
        (inside G F opening (.assignment receiver value :: done) B, .statementEnd) :=
      expr_marked shapedValue (.assigned receiver) (by decide) rfl fun _ => rfl
    have all := (reads.append equal).append rest
    simpa [Stmt.words] using all
  | .conditional condition thenBody elseBody, ⟨shaped, shapedThen, shapedElse⟩, G, F, opening,
      done, B, place, begins => by
    have keyword : Reads (inside G F opening done B, place) [Word.key .IF]
        (begun G F (⟨opening, done⟩ :: B) .ifCondition) :=
      begins.expression (by decide) fun _ => rfl
    have opens : Reads (begun G F (⟨opening, done⟩ :: B) .ifCondition)
        (condition.words ++ [Word.key .DO])
        (inside G F (.thenBranch condition) [] (⟨opening, done⟩ :: B), .thenOpening) :=
      expr_keyed shaped .ifCondition (by decide) fun _ => rfl
    obtain ⟨place', behind, reads⟩ := stmts_read thenBody shapedThen G F (.thenBranch condition) []
      (⟨opening, done⟩ :: B) begins_thenOpening
    have start := (keyword.append opens).append reads
    by_cases none : elseBody = []
    · subst none
      have all := start.append (reads_behind behind (by decide) closeBlock_then)
      simpa [Stmt.words] using all
    · have other := start.append (reads_behind behind (by decide) nextBranch_else)
      obtain ⟨place'', behind', reads'⟩ := stmts_read elseBody shapedElse G F
        (.elseBranch condition thenBody) [] (⟨opening, done⟩ :: B) begins_blockOpening
      have all := (other.append reads').append (reads_behind behind' (by decide) closeBlock_else)
      have words : (Stmt.conditional condition thenBody elseBody).words =
          Word.key .IF :: condition.words ++ Word.key .DO :: Stmt.allWords thenBody ++
            Word.key .ELSE :: Stmt.allWords elseBody ++ [Word.key .END] := by
        rw [Stmt.words, if_neg (by simpa using none)]
      rw [words]
      simpa using all
  | .switch subject cases, ⟨shaped, shapedCases⟩, G, F, opening, done, B, place, begins => by
    have keyword : Reads (inside G F opening done B, place) [Word.key .SWITCH]
        (begun G F (⟨opening, done⟩ :: B) .switchSubject) :=
      begins.expression (by decide) fun _ => rfl
    obtain ⟨spot, place', reads, finished⟩ : ∃ spot place',
        Reads (begun G F (⟨opening, done⟩ :: B) .switchSubject) subject.words
            (⟨G, F, ⟨opening, done⟩ :: B, spot⟩, place') ∧
          Done ⟨G, F, ⟨opening, done⟩ :: B, spot⟩ place' .switchSubject [] [] subject :=
      expr_whole shaped .switchSubject
    have branches : Branches ⟨G, F, ⟨opening, done⟩ :: B, spot⟩ place' G F (⟨opening, done⟩ :: B)
        subject [] :=
      ⟨finished.key (by decide) rfl, finished.key (by decide) rfl⟩
    have rest := cases_read cases shapedCases branches
    have all := (keyword.append reads).append rest
    simpa [Stmt.words] using all
  | .loop condition body, ⟨shaped, shapedBody⟩, G, F, opening, done, B, place, begins => by
    have keyword : Reads (inside G F opening done B, place) [Word.key .WHILE]
        (begun G F (⟨opening, done⟩ :: B) .whileCondition) :=
      begins.expression (by decide) fun _ => rfl
    have opens : Reads (begun G F (⟨opening, done⟩ :: B) .whileCondition)
        (condition.words ++ [Word.key .DO])
        (inside G F (.whileBody condition) [] (⟨opening, done⟩ :: B), .blockOpening) :=
      expr_keyed shaped .whileCondition (by decide) fun _ => rfl
    obtain ⟨place', behind, reads⟩ := stmts_read body shapedBody G F (.whileBody condition) []
      (⟨opening, done⟩ :: B) begins_blockOpening
    have all := ((keyword.append opens).append reads).append
      (reads_behind behind (by decide) closeBlock_while)
    simpa [Stmt.words] using all
  | .ret value, shaped, G, F, opening, done, B, place, begins => by
    have keyword : Reads (inside G F opening done B, place) [Word.key .RETURN]
        (begun G F (⟨opening, done⟩ :: B) .result) :=
      begins.expression (by decide) fun _ => rfl
    have rest : Reads (begun G F (⟨opening, done⟩ :: B) .result)
        (value.words ++ [Word.mark .semicolon])
        (inside G F opening (.ret value :: done) B, .statementEnd) :=
      expr_marked shaped .result (by decide) rfl fun _ => rfl
    exact keyword.append rest

/-- The words of statements fill a block. -/
theorem stmts_read : (ss : List Stmt) → Stmt.AllShaped .written ss →
    ∀ G F opening done B {place}, Begins place →
      ∃ place', (place' = place ∨ place' = .statementEnd) ∧
        Reads (inside G F opening done B, place) (Stmt.allWords ss)
          (inside G F opening (ss.reverse ++ done) B, place')
  | [], _, G, F, opening, done, B, place, _ => ⟨place, .inl rfl, .nil⟩
  | s :: rest, ⟨first, others⟩, G, F, opening, done, B, place, begins => by
    have reads := stmt_reads s first G F opening done B begins
    obtain ⟨place', behind, readsMore⟩ :=
      stmts_read rest others G F opening (s :: done) B begins_statementEnd
    refine ⟨place', .inr (by rcases behind with h | h <;> exact h), ?_⟩
    rw [Stmt.allWords, List.reverse_cons, List.append_assoc, List.singleton_append]
    exact reads.append readsMore

/-- The words of all branches up to the end of the switch. -/
theorem cases_read : (bs : List Case) → Case.AllShaped .written bs →
    ∀ {c place G F opening stmts B subject done},
      Branches c place G F (⟨opening, stmts⟩ :: B) subject done →
      Reads (c, place) (Case.allWords bs ++ [Word.key .END])
        (inside G F opening (.switch subject (done.reverse ++ bs) :: stmts) B, .statementEnd)
  | [], shaped, _, _, _, _, _, _, _, _, _, _ => shaped.elim
  | .mk (some value) body :: rest, ⟨shaped, shapedBody, others⟩, c, place, G, F, opening, stmts, B,
      subject, done, branches => by
    have opens : Reads (begun G F (⟨opening, stmts⟩ :: B) (.caseValue subject done))
        (value.words ++ [Word.mark .colon])
        (inside G F (.caseBranch subject done value) [] (⟨opening, stmts⟩ :: B), .caseOpening) :=
      expr_marked shaped (.caseValue subject done) (by decide) rfl fun _ => rfl
    obtain ⟨place', behind, reads⟩ := stmts_read body shapedBody G F
      (.caseBranch subject done value) [] (⟨opening, stmts⟩ :: B) begins_caseOpening
    have next : Branches
        (inside G F (.caseBranch subject done value) (body.reverse ++ []) (⟨opening, stmts⟩ :: B))
        place' G F (⟨opening, stmts⟩ :: B) subject (.mk (some value) body :: done) :=
      ⟨reads_behind behind (by decide) nextBranch_case,
        reads_behind behind (by decide) nextBranch_default⟩
    have more := cases_read rest others next
    have all := ((branches.case.append opens).append reads).append more
    simpa [Case.allWords] using all
  | .mk none body :: rest, ⟨shapedBody, last⟩, c, place, G, F, opening, stmts, B, subject, done,
      branches => by
    subst last
    obtain ⟨place', behind, reads⟩ := stmts_read body shapedBody G F (.defaultBranch subject done)
      [] (⟨opening, stmts⟩ :: B) begins_blockOpening
    have all := (branches.default.append reads).append
      (reads_behind behind (by decide) closeBlock_default)
    simpa [Case.allWords] using all
end

end Parser

end PlcLang
