import PlcLang.Proofs.Parsing.Scans

/-! Wherever tokens lead, the tokens that may go on are looked for, and statements stand in a
function. -/

namespace PlcLang

namespace Parser

/-! ### What is kept while a text is read -/

/-- What opens the block of a function. -/
def Opening.IsFunction : Opening → Prop
  | .function .. => True
  | _ => False

/-- The keyword that ends a block, or begins the last branch behind it. -/
def Opening.lastKeyword : Opening → Keyword
  | .caseBranch .. => .DEFAULT
  | _ => .END

/-- One of the blocks is that of a function. -/
def Sheltered : List OpenBlock → Prop
  | [] => False
  | b :: rest => b.opening.IsFunction ∨ Sheltered rest

/-- Only what a global is set to is read outside a function. -/
def Goal.Placed (blocks : List OpenBlock) : Goal → Prop
  | .element .. | .global .. => True
  | _ => Sheltered blocks

def Point.Placed (place : Place) : Point → Prop
  | .wanted => place = .operandWanted
  | .wantedOrClosing => ∀ t ∈ Place.operandStart, t ∈ place.accepts
  | .sign => place = .sign
  | .name _ => place = .name
  | .complete _ => place = .operand

/-- The tokens that go on from a spot are looked for at the place, and statements stand in a
function. -/
def Spot.Placed (blocks : List OpenBlock) (place : Place) : Spot → Prop
  | .top _ => True
  | .globalKind _ | .globalColon .. | .functionKeyword | .nextParameter .. | .parameterColon ..
  | .resultColon .. => place = .nameWanted
  | .globalName .. | .parameterName .. => place = .variableName
  | .globalType kind .. => place = Configuration.globalTypePlace kind
  | .listEqual .. => place = .listEqual
  | .listClosed _ => place = .listClosing
  | .functionName _ => place = .functionName
  | .firstParameter _ => place = .functionOpening
  | .parameterType .. => place = .parameterType
  | .headerClosed .. => place = .functionClosing
  | .resultType .. => place = .resultType
  | .statement =>
    Sheltered blocks ∧ ∀ b ∈ blocks.head?, .keyword b.opening.lastKeyword ∈ place.accepts
  | .letKeyword | .letColon _ => place = .nameWanted ∧ Sheltered blocks
  | .letName _ => place = .letName ∧ Sheltered blocks
  | .letType .. => place = .variableType ∧ Sheltered blocks
  | .expression goal _ _ point => goal.Placed blocks ∧ point.Placed place

def Configuration.Placed (c : Configuration) (place : Place) : Prop :=
  c.spot.Placed c.blocks place

/-- Where a token leads, if anywhere, the place fits the spot. -/
def Stays (r : Option (Configuration × Place)) : Prop :=
  ∀ c place, r = some (c, place) → c.Placed place

theorem stays_none : Stays none := by
  intro c place h
  cases h

theorem stays_some {c : Configuration} {place : Place} (h : c.Placed place) :
    Stays (some (c, place)) := by
  intro c' place' e
  cases e
  exact h

theorem lastKeyword_statementEnd (opening : Opening) :
    .keyword opening.lastKeyword ∈ Place.statementEnd.accepts := by
  cases opening with
  | caseBranch => exact (by decide : Terminal.keyword .DEFAULT ∈ Place.statementEnd.accepts)
  | _ => exact (by decide : Terminal.keyword .END ∈ Place.statementEnd.accepts)

theorem end_blockOpening : .keyword .END ∈ Place.blockOpening.accepts := by decide

theorem end_thenOpening : .keyword .END ∈ Place.thenOpening.accepts := by decide

theorem default_caseOpening : .keyword .DEFAULT ∈ Place.caseOpening.accepts := by decide

theorem operand_bracketOpening : ∀ t ∈ Place.operandStart, t ∈ Place.bracketOpening.accepts := by
  decide

theorem operand_callOpening : ∀ t ∈ Place.operandStart, t ∈ Place.callOpening.accepts := by
  decide

namespace Configuration

variable {c : Configuration} {place : Place}

theorem stays_goTo {spot : Spot} (placed : spot.Placed c.blocks place) :
    Stays (c.goTo spot place) :=
  stays_some placed

theorem stays_addGlobal (g : Global) : Stays (c.addGlobal g) :=
  stays_some trivial

theorem stays_addStatement (sheltered : Sheltered c.blocks) (s : Stmt) :
    Stays (c.addStatement s) := by
  rw [Configuration.addStatement]
  split
  · rename_i b rest h
    rw [h] at sheltered
    refine stays_some ⟨sheltered, fun b' head => ?_⟩
    cases head
    exact lastKeyword_statementEnd b.opening
  · exact stays_none

theorem stays_openBlock {opening : Opening} (sheltered : Sheltered (⟨opening, []⟩ :: c.blocks))
    (ends : .keyword opening.lastKeyword ∈ place.accepts) : Stays (c.openBlock opening place) := by
  refine stays_some ⟨sheltered, fun b head => ?_⟩
  cases head
  exact ends

theorem stays_startExpression {goal : Goal} (placed : goal.Placed c.blocks) :
    Stays (c.startExpression goal) :=
  stays_goTo ⟨placed, rfl⟩

theorem stays_closeBlock (sheltered : Sheltered c.blocks) : Stays c.closeBlock := by
  rw [Configuration.closeBlock]
  split
  · exact stays_none
  · rename_i b rest h
    rw [h] at sheltered
    dsimp only
    split
    · exact stays_some trivial
    all_goals
      rename_i e
      first
        | exact stays_addStatement (sheltered.resolve_left (by rw [e]; exact not_false)) _
        | exact stays_none

theorem stays_nextBranch (sheltered : Sheltered c.blocks) (k : Keyword) :
    Stays (c.nextBranch k) := by
  rw [Configuration.nextBranch]
  split
  · exact stays_none
  · rename_i b rest h
    rw [h] at sheltered
    dsimp only
    split
    · rename_i e
      have outside := sheltered.resolve_left (by rw [e]; exact not_false)
      exact stays_openBlock (.inr outside) end_blockOpening
    · rename_i e
      exact stays_startExpression (sheltered.resolve_left (by rw [e]; exact not_false))
    · rename_i e
      have outside := sheltered.resolve_left (by rw [e]; exact not_false)
      exact stays_openBlock (.inr outside) end_blockOpening
    · exact stays_none

theorem stays_finishGoal {e : Expr} {goal : Goal} (placed : goal.Placed c.blocks) (t : Terminal) :
    Stays (c.finishGoal e goal t) := by
  unfold Configuration.finishGoal
  split
  · exact stays_startExpression trivial
  · exact stays_goTo rfl
  · exact stays_addGlobal _
  · exact stays_addStatement placed _
  · exact stays_openBlock (.inr placed) end_thenOpening
  · exact stays_openBlock (.inr placed) end_blockOpening
  · exact stays_startExpression placed
  · exact stays_openBlock (.inr placed) end_blockOpening
  · exact stays_openBlock (.inr placed) default_caseOpening
  · exact stays_addStatement placed _
  · exact stays_addStatement placed _
  · exact stays_startExpression placed
  · exact stays_addStatement placed _
  · exact stays_none

theorem stays_afterOperand {goal : Goal} {nests : List Nest} {pending : Operands} {e : Expr}
    (placed : goal.Placed c.blocks) (t : Terminal) :
    Stays (c.afterOperand goal nests pending e t) := by
  unfold Configuration.afterOperand
  split
  · split
    · exact stays_goTo ⟨placed, rfl⟩
    · dsimp only
      split
      · exact stays_finishGoal placed _
      · exact stays_goTo ⟨placed, rfl⟩
      · exact stays_goTo ⟨placed, rfl⟩
      · exact stays_goTo ⟨placed, rfl⟩
      · exact stays_goTo ⟨placed, rfl⟩
      · exact stays_goTo ⟨placed, rfl⟩
      · exact stays_goTo ⟨placed, rfl⟩
      · exact stays_none
  · split
    · exact stays_finishGoal placed _
    · exact stays_none

theorem stays_startOperand {goal : Goal} {nests : List Nest} {pending : Operands} {t : Token}
    (placed : goal.Placed c.blocks) : Stays (c.startOperand goal nests pending t) := by
  unfold Configuration.startOperand
  split
  · exact stays_goTo ⟨placed, rfl⟩
  · exact stays_goTo ⟨placed, rfl⟩
  · exact stays_goTo ⟨placed, rfl⟩
  · exact stays_goTo ⟨placed, operand_bracketOpening⟩
  · split
    · exact stays_goTo ⟨placed, rfl⟩
    · exact stays_none

theorem stays_closeEmpty {goal : Goal} {nests : List Nest} (placed : goal.Placed c.blocks)
    (t : Terminal) : Stays (c.closeEmpty goal nests t) := by
  unfold Configuration.closeEmpty
  split
  · exact stays_goTo rfl
  · exact stays_goTo ⟨placed, rfl⟩
  · exact stays_goTo ⟨placed, rfl⟩
  · exact stays_none

theorem stays_shiftExpression {goal : Goal} {nests : List Nest} {pending : Operands}
    {point : Point} {t : Token} (placed : goal.Placed c.blocks) :
    Stays (c.shiftExpression goal nests pending point t) := by
  unfold Configuration.shiftExpression
  split
  · exact stays_startOperand placed
  · split
    · rename_i r closes
      have stays : Stays (c.closeEmpty goal nests t.kind) := stays_closeEmpty placed t.kind
      rwa [closes] at stays
    · exact stays_startOperand placed
  · split
    · exact stays_goTo ⟨placed, rfl⟩
    · exact stays_none
  · split
    · exact stays_goTo ⟨placed, operand_callOpening⟩
    · exact stays_goTo ⟨placed, rfl⟩
    · exact stays_afterOperand placed _
  · exact stays_afterOperand placed _

theorem stays_shiftStatement (sheltered : Sheltered c.blocks) (t : Token) :
    Stays (c.shiftStatement t) := by
  unfold Configuration.shiftStatement
  split
  · exact stays_goTo ⟨rfl, sheltered⟩
  · exact stays_startExpression sheltered
  · exact stays_startExpression sheltered
  · exact stays_startExpression sheltered
  · exact stays_startExpression sheltered
  · exact stays_closeBlock sheltered
  · exact stays_nextBranch sheltered _
  · exact stays_nextBranch sheltered _
  · exact stays_nextBranch sheltered _
  · exact stays_startOperand sheltered

theorem stays_shiftTop (functionsOnly : Bool) (t : Terminal) :
    Stays (c.shiftTop functionsOnly t) := by
  unfold Configuration.shiftTop
  split
  · exact stays_goTo rfl
  · exact stays_goTo rfl
  · exact stays_goTo rfl
  · exact stays_goTo rfl
  · exact stays_none

/-- A token keeps the place fit for the spot. -/
theorem Placed.shift (placed : c.Placed place) (t : Token) : Stays (c.shift t) := by
  have at_spot : c.spot.Placed c.blocks place := placed
  unfold Configuration.shift
  dsimp only
  split
  case h_1 => exact stays_shiftTop _ _
  case h_24 spot =>
    rw [spot] at at_spot
    exact stays_shiftStatement at_spot.1 t
  case h_32 spot =>
    rw [spot] at at_spot
    exact stays_shiftExpression at_spot.1
  case h_33 => exact stays_none
  all_goals
    rename_i spot token
    rw [spot] at at_spot
  case h_6 | h_7 => exact stays_startExpression trivial
  case h_8 | h_10 => exact stays_addGlobal _
  case h_9 => exact stays_goTo ⟨trivial, operand_bracketOpening⟩
  case h_21 | h_23 => exact stays_openBlock (.inl trivial) end_blockOpening
  case h_25 | h_26 | h_29 => exact stays_goTo ⟨rfl, at_spot.2⟩
  case h_27 | h_30 => exact stays_startExpression at_spot.2
  case h_28 | h_31 => exact stays_addStatement at_spot.2 _
  all_goals exact stays_goTo rfl

end Configuration

/-- The tokens of a text keep the place fit for the spot. -/
theorem Scans.placed {s s' : Stand} {tokens : List (Place × Token)} (scans : Scans s tokens s')
    (placed : s.configuration.Placed s.place) : s'.configuration.Placed s'.place := by
  induction scans with
  | nil => exact placed
  | @cons s s' t cursor c place tokens next more shift rest ih =>
    exact ih (placed.shift t c place shift)

end Parser

end PlcLang
