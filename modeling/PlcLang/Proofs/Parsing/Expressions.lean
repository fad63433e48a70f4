import PlcLang.Proofs.Parsing.Operands

/-! The words of an expression are read as the expression. -/

namespace PlcLang

open Word

/-- Names and literals as they can be written. -/
def Wording.written : Wording :=
  ⟨IsName, fun l => l.Spelled ∧ l.Signable⟩

/-- The mark of a known operator stands for it. -/
theorem Operator.words_eq {op : Operator} (known : op ∈ Operator.all) :
    ∃ s, op.words = [mark s] ∧ s.operator? = some op ∧ .symbol s ∈ Place.operators := by
  cases op with
  | other given => simp [Operator.all] at known
  | _ => exact ⟨_, rfl, rfl, by decide⟩

namespace Parser

variable {c : Configuration} {place : Place} {goal : Goal} {nests : List Nest} {pending : Operands}
variable {e : Expr}

/-- From one configuration the words lead to where an expression is read, at the same globals,
functions and blocks. -/
def Gets (c : Configuration) (place : Place) (goal : Goal) (nests : List Nest) (pending : Operands)
    (ws : List Word) (e : Expr) : Prop :=
  ∃ spot place', Reads (c, place) ws ({ c with spot := spot }, place') ∧
    Done { c with spot := spot } place' goal nests pending e

/-- A mark behind an expression, whatever waits before it. -/
theorem Done.mark_whole (done : Done c place goal nests pending e) {s : Symbol}
    (ends : .symbol s ∈ Place.expressionEnd) {next : Configuration × Place}
    (leads : c.afterOperand goal nests [] (whole pending e) (.symbol s) = some next) :
    Reads (c, place) [Word.mark s] next := by
  refine Reads.mark s (done.wanted _ (List.mem_append_right _ ends)) fun p => ?_
  rw [done.ends_whole (t := (Word.mark s).token p) ends]
  exact leads

theorem Done.key_whole (done : Done c place goal nests pending e) {k : Keyword}
    (ends : .keyword k ∈ Place.expressionEnd) {next : Configuration × Place}
    (leads : c.afterOperand goal nests [] (whole pending e) (.keyword k) = some next) :
    Reads (c, place) [Word.key k] next := by
  refine Reads.key k (done.wanted _ (List.mem_append_right _ ends)) fun p => ?_
  rw [done.ends_whole (t := (Word.key k).token p) ends]
  exact leads

/-- A bracket or a comma behind a whole expression. -/
theorem Done.mark (done : Done c place goal nests [] e) {s : Symbol}
    (ends : .symbol s ∈ Place.expressionEnd) {next : Configuration × Place}
    (leads : c.afterOperand goal nests [] e (.symbol s) = some next) :
    Reads (c, place) [Word.mark s] next :=
  done.mark_whole ends leads

theorem Done.key (done : Done c place goal nests [] e) {k : Keyword}
    (ends : .keyword k ∈ Place.expressionEnd) {next : Configuration × Place}
    (leads : c.afterOperand goal nests [] e (.keyword k) = some next) :
    Reads (c, place) [Word.key k] next :=
  done.key_whole ends leads

/-- A name where an operand may begin. -/
theorem Ready.ident (ready : Ready c place goal nests pending) {name : String}
    (named : IsName name) :
    Reads (c, place) [Word.ident name]
      ({ c with spot := .expression goal nests pending (.name name) }, .name) := by
  refine Reads.ident named (ready.wanted _ (by decide))
    (fun name => ({ c with spot := .expression goal nests pending (.name name) }, .name)) fun p => ?_
  rw [ready.shift _ (show Terminal.ident ∈ Place.operandStart by decide)]
  rfl

/-- A bracket where an operand may begin. -/
theorem Ready.bracket (ready : Ready c place goal nests pending) {s : Symbol}
    (start : .symbol s ∈ Place.operandStart) {next : Configuration × Place}
    (leads : ∀ p, c.startOperand goal nests pending ((Word.mark s).token p) = some next) :
    Reads (c, place) [Word.mark s] next := by
  refine Reads.mark s (ready.wanted _ start) fun p => ?_
  rw [ready.shift _ (show ((Word.mark s).token p).kind ∈ _ from start)]
  exact leads p

/-- A bracket behind a name. -/
theorem reads_nameBracket (c : Configuration) (goal : Goal) (nests : List Nest)
    (pending : Operands) (name : String) {s : Symbol} (wanted : .symbol s ∈ Place.name.accepts)
    {next : Configuration × Place}
    (leads : ∀ p, Configuration.shiftExpression
      { c with spot := .expression goal nests pending (.name name) } goal nests pending (.name name)
      ((Word.mark s).token p) = some next) :
    Reads ({ c with spot := .expression goal nests pending (.name name) }, .name) [Word.mark s]
      next :=
  Reads.mark s wanted leads

/-- Brackets that collect expressions: a comma adds one, and the closing mark makes them all one
operand. -/
structure Collects (goal : Goal) (nests : List Nest) (nest : List Expr → Nest) (around : Operands)
    (closing : Symbol) (operand : List Expr → Expr) : Prop where
  ends : .symbol closing ∈ Place.expressionEnd
  comma : ∀ (c : Configuration) done e,
    c.afterOperand goal (nest done :: nests) [] e (.symbol .comma) =
      c.goTo (.expression goal (nest (e :: done) :: nests) [] .wanted) .operandWanted
  full : ∀ (c : Configuration) done e,
    c.afterOperand goal (nest done :: nests) [] e (.symbol closing) =
      c.goTo (.expression goal nests around (.complete (operand (e :: done).reverse))) .operand
  empty : ∀ c : Configuration,
    c.closeEmpty goal (nest [] :: nests) (.symbol closing) =
      c.goTo (.expression goal nests around (.complete (operand []))) .operand

theorem collects_arguments (goal : Goal) (nests : List Nest) (name : String) (around : Operands) :
    Collects goal nests (.arguments name · around) around .rpar (.call name) :=
  ⟨by decide, fun _ _ _ => rfl, fun _ _ _ => rfl, fun _ => by cases goal <;> rfl⟩

theorem collects_elements (goal : Goal) (nests : List Nest) (around : Operands) :
    Collects goal nests (.elements · around) around .rsqb .list :=
  ⟨by decide, fun _ _ _ => rfl, fun _ _ _ => rfl, fun _ => by cases goal <;> rfl⟩

mutual
/-- Where an operand may begin, the words of an expression that is tighter than what waits are read
as the expression. -/
theorem expr_gets : (e : Expr) → e.Shaped .written →
    ∀ {c place goal nests pending}, Ready c place goal nests pending →
      (∀ p ∈ pending.head?, p.2.level < e.level) → Gets c place goal nests pending e.words e
  | .literal value, ⟨spelled, signable⟩, c, place, goal, nests, pending, ready, _ =>
    ⟨_, _, ready.spelled spelled signable, done_complete c goal nests pending _⟩
  | .group inner, shaped, c, place, goal, nests, pending, ready, _ => by
    have opens : Reads (c, place) [Word.mark .lpar] _ := ready.bracket (by decide) fun _ => rfl
    obtain ⟨spot, place', reads, done⟩ :=
      expr_gets inner shaped (ready_wanted c goal (.group pending :: nests) []) (by simp)
    have closes : Reads _ [Word.mark .rpar] _ := done.mark (by decide) rfl
    exact ⟨_, _, (opens.append reads).append closes, done_complete c goal nests pending _⟩
  | .binary op left right, ⟨known, ordered, tighter, shapedLeft, shapedRight⟩, c, place, goal,
      nests, pending, ready, below => by
    obtain ⟨s, words, mark, operator⟩ := Operator.words_eq known
    obtain ⟨spot, place', reads, done⟩ := expr_gets left shapedLeft ready
      fun p hp => Nat.lt_of_lt_of_le (below p hp) ordered
    have joins : Reads _ [Word.mark s] _ :=
      Reads.mark s (done.wanted _ (List.mem_append_left _ operator))
        (done.operator mark ordered below)
    obtain ⟨spot', place'', readsRight, doneRight⟩ := expr_gets right shapedRight
      (ready_wanted c goal nests ((left, op) :: pending)) (by simpa using tighter)
    refine ⟨spot', place'', ?_, doneRight.wanted, ?_⟩
    · rw [Expr.words, words]
      exact (reads.append joins).append readsRight
    · obtain ⟨waiting, x, same, shift⟩ := doneRight.shift
      refine ⟨waiting, x, fun level low => ?_, shift⟩
      have joins : level ≤ op.level := low
      rw [same level (Nat.le_of_lt (Nat.lt_of_le_of_lt joins tighter)), settle, if_pos joins]
  | .access name none, named, c, place, goal, nests, pending, ready, _ =>
    ⟨_, _, ready.ident named, done_name c goal nests pending name⟩
  | .access name (some offset), ⟨named, shaped⟩, c, place, goal, nests, pending, ready, _ => by
    have opens : Reads _ [Word.mark .lsqb] _ :=
      reads_nameBracket c goal nests pending name (by decide) fun _ => rfl
    obtain ⟨spot, place', reads, done⟩ :=
      expr_gets offset shaped (ready_wanted c goal (.index name pending :: nests) []) (by simp)
    have closes : Reads _ [Word.mark .rsqb] _ := done.mark (by decide) rfl
    exact ⟨_, _, ((ready.ident named).append (opens.append reads)).append closes,
      done_complete c goal nests pending _⟩
  | .call name arguments, ⟨named, shaped⟩, c, place, goal, nests, pending, ready, _ => by
    have opens : Reads _ [Word.mark .lpar] _ :=
      reads_nameBracket c goal nests pending name (by decide) fun _ => rfl
    have reads := list_gets arguments shaped c .callOpening
      (collects_arguments goal nests name pending) (by decide) (by decide)
    exact ⟨_, _, (ready.ident named).append (opens.append reads),
      done_complete c goal nests pending _⟩
  | .list elements, shaped, c, place, goal, nests, pending, ready, _ => by
    have opens : Reads (c, place) [Word.mark .lsqb] _ := ready.bracket (by decide) fun _ => rfl
    have reads := list_gets elements shaped c .bracketOpening
      (collects_elements goal nests pending) (by decide) (by decide)
    exact ⟨_, _, opens.append reads, done_complete c goal nests pending _⟩

/-- From behind the opening bracket, expressions and the closing mark are read as one operand. -/
theorem list_gets : (es : List Expr) → Expr.AllShaped .written es →
    ∀ (c : Configuration) (place : Place) {goal nests} {nest : List Expr → Nest} {around : Operands}
      {closing : Symbol} {operand : List Expr → Expr},
      Collects goal nests nest around closing operand →
      (∀ t ∈ Place.operandStart, t ∈ place.accepts) → .symbol closing ∈ place.accepts →
      Reads ({ c with spot := .expression goal (nest [] :: nests) [] .wantedOrClosing }, place)
        (Expr.listWords es ++ [Word.mark closing])
        ({ c with spot := .expression goal nests around (.complete (operand es)) }, .operand)
  | [], _, c, place, goal, nests, nest, around, closing, operand, collects, _, closes => by
    refine Reads.mark closing closes fun p => ?_
    show Configuration.shiftExpression _ goal (nest [] :: nests) [] .wantedOrClosing _ = _
    rw [Configuration.shiftExpression]
    show (match Configuration.closeEmpty _ goal (nest [] :: nests) (.symbol closing) with
      | some r => some r
      | none => _) = _
    rw [collects.empty]
    rfl
  | e :: rest, ⟨first, others⟩, c, place, goal, nests, nest, around, closing, operand, collects,
      starts, _ => by
    obtain ⟨spot, place', reads, done⟩ :=
      expr_gets e first (ready_wantedOrClosing c goal (nest [] :: nests) [] starts) (by simp)
    obtain ⟨done', e', same, spot', place'', readsMore, last⟩ := exprs_get rest others collects done
    have closes : Reads _ [Word.mark closing] _ :=
      last.mark collects.ends (collects.full _ done' e')
    rw [same] at closes
    exact (reads.append readsMore).append closes

/-- Further expressions of a list are added to those before them. -/
theorem exprs_get : (es : List Expr) → Expr.AllShaped .written es →
    ∀ {c place goal nests} {nest : List Expr → Nest} {around : Operands} {closing : Symbol}
      {operand : List Expr → Expr} {done : List Expr} {e : Expr},
      Collects goal nests nest around closing operand →
      Done c place goal (nest done :: nests) [] e →
      ∃ done' e', (e' :: done').reverse = (e :: done).reverse ++ es ∧
        Gets c place goal (nest done' :: nests) [] (Expr.moreWords es) e'
  | [], _, c, place, goal, nests, nest, _, _, _, done, e, _, here =>
    ⟨done, e, by simp, c.spot, place, .nil, here⟩
  | next :: rest, ⟨first, others⟩, c, place, goal, nests, nest, _, _, _, done, e, collects, here => by
    have comma : Reads (c, place) [Word.mark .comma] _ :=
      here.mark (by decide) (collects.comma c done e)
    obtain ⟨spot, place', reads, there⟩ :=
      expr_gets next first (ready_wanted c goal (nest (e :: done) :: nests) []) (by simp)
    obtain ⟨done', e', same, spot', place'', readsMore, last⟩ :=
      exprs_get rest others collects there
    refine ⟨done', e', by rw [same]; simp, spot', place'', ?_, last⟩
    exact (comma.append reads).append readsMore
end

end Parser

end PlcLang
