import PlcLang.Parser.Program
import PlcLang.Proofs.Parsing.Shape

/-! What is read of a program has the shape of a program at every token. -/

namespace PlcLang

/-- A token whose text and value may stand where it is read. -/
structure Token.Fits (W : Wording) (place : Place) (t : Token) : Prop where
  name : t.kind = .ident → W.name (String.ofList t.text)
  literal : ∀ value, t.literal? = some value → W.literal value
  negative : place = .sign → ∀ value, t.negative? = some value → W.literal value

namespace Parser

variable (W : Wording)

/-- The left operands that wait, the tightest operator first. -/
def Shaped : Operands → Prop
  | [] => True
  | (left, op) :: rest =>
    op ∈ Operator.all ∧ op.level ≤ left.level ∧ left.Shaped W ∧
      (∀ p ∈ rest.head?, p.2.level < op.level) ∧ Shaped rest

def Nest.Shaped : Nest → Prop
  | .group around => Parser.Shaped W around
  | .index name around => W.name name ∧ Parser.Shaped W around
  | .arguments name done around =>
    W.name name ∧ (∀ e ∈ done, e.Shaped W) ∧ Parser.Shaped W around
  | .elements done around => (∀ e ∈ done, e.Shaped W) ∧ Parser.Shaped W around

/-- A complete operand is no bare operation. A sign stands where a place is for one. -/
def Point.Shaped (place : Place) : Point → Prop
  | .wanted | .wantedOrClosing => True
  | .sign => place = .sign
  | .name text => W.name text
  | .complete e => e.Shaped W ∧ e.level = 5

/-- Branches of a switch that all have a value. -/
def Valued (done : List Case) : Prop :=
  ∀ b ∈ done, ∃ value body, b = .mk (some value) body ∧ value.Shaped W ∧ Stmt.AllShaped W body

def Goal.Shaped : Goal → Prop
  | .element name typeName done => W.name name ∧ W.name typeName ∧ ∀ e ∈ done, e.Shaped W
  | .global name _ typeName => W.name name ∧ W.name typeName
  | .declaration name typeName => W.name name ∧ ∀ t ∈ typeName, W.name t
  | .caseValue subject done => subject.Shaped W ∧ Valued W done
  | .assigned receiver => receiver.Shaped W
  | .ifCondition | .whileCondition | .switchSubject | .result | .statement => True

def Opening.Shaped : Opening → Prop
  | .function name parameters result =>
    W.name name ∧ (∀ p ∈ parameters, p.Shaped W) ∧ ∀ t ∈ result, W.name t
  | .thenBranch condition | .whileBody condition => condition.Shaped W
  | .elseBranch condition thenBody => condition.Shaped W ∧ Stmt.AllShaped W thenBody
  | .caseBranch subject done value => subject.Shaped W ∧ Valued W done ∧ value.Shaped W
  | .defaultBranch subject done => subject.Shaped W ∧ Valued W done

structure OpenBlock.Shaped (b : OpenBlock) : Prop where
  opening : b.opening.Shaped W
  done : ∀ s ∈ b.done, s.Shaped W

def Spot.Shaped (place : Place) : Spot → Prop
  | .top _ | .globalKind _ | .functionKeyword | .statement | .letKeyword => True
  | .globalName _ name | .globalColon _ name | .functionName name | .firstParameter name
  | .letName name | .letColon name => W.name name
  | .globalType _ name typeName | .listEqual name typeName | .letType name typeName =>
    W.name name ∧ W.name typeName
  | .listClosed g => g.Shaped W
  | .nextParameter name done | .parameterType name done | .headerClosed name done
  | .resultColon name done => W.name name ∧ ∀ p ∈ done, p.Shaped W
  | .parameterName name done parameter | .parameterColon name done parameter =>
    W.name name ∧ (∀ p ∈ done, p.Shaped W) ∧ W.name parameter
  | .resultType name parameters result =>
    W.name name ∧ (∀ p ∈ parameters, p.Shaped W) ∧ W.name result
  | .expression goal nests pending point =>
    goal.Shaped W ∧ (∀ n ∈ nests, n.Shaped W) ∧ Parser.Shaped W pending ∧ point.Shaped W place

/-- The complete parts of a configuration. -/
structure Configuration.Holds (c : Configuration) : Prop where
  globals : ∀ g ∈ c.globals, g.Shaped W
  functions : ∀ f ∈ c.functions, f.Shaped W
  blocks : ∀ b ∈ c.blocks, b.Shaped W

/-- A configuration with the place it is left in. -/
structure Configuration.Shaped (c : Configuration) (place : Place) : Prop where
  holds : c.Holds W
  spot : c.spot.Shaped W place

/-- Where a token leads, if anywhere, everything has its shape. -/
def Leads (r : Option (Configuration × Place)) : Prop :=
  ∀ c place, r = some (c, place) → c.Shaped W place

variable {W}

theorem leads_none : Leads W none := by
  intro c place h
  cases h

theorem leads_some {c : Configuration} {place : Place} (h : c.Shaped W place) :
    Leads W (some (c, place)) := by
  intro c' place' e
  cases e
  exact h

/-- Joining operands keeps the levels apart. -/
theorem settle_shaped {level : Nat} {pending : Operands} {e : Expr}
    (waiting : Shaped W pending) (shaped : e.Shaped W) (tight : level ≤ e.level)
    (above : ∀ p ∈ pending.head?, p.2.level < e.level) :
    Shaped W (settle level pending e).1 ∧ (settle level pending e).2.Shaped W ∧
      level ≤ (settle level pending e).2.level ∧
      ∀ p ∈ (settle level pending e).1.head?, p.2.level < level := by
  induction pending generalizing e with
  | nil => exact ⟨trivial, shaped, tight, by simp [settle]⟩
  | cons p rest ih =>
    obtain ⟨left, op⟩ := p
    obtain ⟨known, ordered, shapedLeft, below, more⟩ := waiting
    rw [settle]
    split
    · rename_i joins
      have tighter : op.level < e.level := above (left, op) rfl
      exact ih more ⟨known, ordered, tighter, shapedLeft, shaped⟩ joins below
    · rename_i stops
      refine ⟨⟨known, ordered, shapedLeft, below, more⟩, shaped, tight, ?_⟩
      intro p hp
      rw [List.head?_cons, Option.mem_some_iff] at hp
      subst hp
      exact Nat.lt_of_not_le stops

theorem whole_shaped {pending : Operands} {e : Expr} (waiting : Shaped W pending)
    (shaped : e.Shaped W) (atom : e.level = 5) : (whole pending e).Shaped W := by
  have above : ∀ p ∈ pending.head?, p.2.level < e.level := by
    intro p _
    rw [atom]
    exact Operator.level_lt
  exact (settle_shaped waiting shaped (Nat.zero_le _) above).2.1

theorem all_cons {α : Type} {P : α → Prop} {a : α} {l : List α} (head : P a)
    (tail : ∀ b ∈ l, P b) : ∀ b ∈ a :: l, P b := by
  intro b hb
  rcases List.mem_cons.1 hb with rfl | hb
  · exact head
  · exact tail b hb

theorem all_reverse {α : Type} {P : α → Prop} {l : List α} (h : ∀ b ∈ l, P b) :
    ∀ b ∈ l.reverse, P b :=
  fun b hb => h b (List.mem_reverse.1 hb)

/-- Branches with values followed by one without make a switch. -/
theorem cases_shaped {done : List Case} {body : List Stmt} (valued : Valued W done)
    (shaped : Stmt.AllShaped W body) : Case.AllShaped W (done ++ [.mk none body]) := by
  induction done with
  | nil => exact ⟨shaped, rfl⟩
  | cons b rest ih =>
    obtain ⟨value, inner, rfl, shapedValue, shapedInner⟩ := valued b (by simp)
    exact ⟨shapedValue, shapedInner, ih fun b hb => valued b (by simp [hb])⟩

namespace Configuration

variable {c : Configuration} {place : Place}

theorem Holds.goTo (holds : c.Holds W) {spot : Spot} (shaped : spot.Shaped W place) :
    Leads W (c.goTo spot place) :=
  leads_some ⟨⟨holds.globals, holds.functions, holds.blocks⟩, shaped⟩

theorem Holds.addGlobal (holds : c.Holds W) {g : Global} (shaped : g.Shaped W) :
    Leads W (c.addGlobal g) :=
  leads_some ⟨⟨all_cons shaped holds.globals, holds.functions, holds.blocks⟩, trivial⟩

theorem Holds.addStatement (holds : c.Holds W) {s : Stmt} (shaped : s.Shaped W) :
    Leads W (c.addStatement s) := by
  rw [Configuration.addStatement]
  split
  · rename_i b rest h
    have blocks := holds.blocks
    rw [h] at blocks
    have first := blocks b (by simp)
    refine leads_some ⟨⟨holds.globals, holds.functions, all_cons ⟨first.opening, ?_⟩ ?_⟩, trivial⟩
    · exact all_cons shaped first.done
    · intro b' hb'
      exact blocks b' (by simp [hb'])
  · exact leads_none

theorem Holds.openBlock (holds : c.Holds W) {opening : Opening} (shaped : opening.Shaped W) :
    Leads W (c.openBlock opening place) := by
  have block : OpenBlock.Shaped W ⟨opening, []⟩ := ⟨shaped, by simp⟩
  exact leads_some ⟨⟨holds.globals, holds.functions, all_cons block holds.blocks⟩, trivial⟩

theorem Holds.startExpression (holds : c.Holds W) {goal : Goal} (shaped : goal.Shaped W) :
    Leads W (c.startExpression goal) :=
  holds.goTo ⟨shaped, by simp, trivial, trivial⟩

/-- The statements of the innermost block, and the configuration around it. -/
theorem Holds.inner (holds : c.Holds W) {b : OpenBlock} {rest : List OpenBlock}
    (h : c.blocks = b :: rest) :
    b.opening.Shaped W ∧ Stmt.AllShaped W b.done.reverse ∧
      Configuration.Holds W { c with blocks := rest } := by
  have blocks := holds.blocks
  rw [h] at blocks
  have first := blocks b (by simp)
  refine ⟨first.opening, Stmt.allShaped_iff.2 (all_reverse first.done), ?_⟩
  exact ⟨holds.globals, holds.functions, fun b' hb' => blocks b' (by simp [hb'])⟩

theorem Holds.closeBlock (holds : c.Holds W) : Leads W c.closeBlock := by
  rw [Configuration.closeBlock]
  split
  · exact leads_none
  · rename_i b rest h
    obtain ⟨opening, body, outside⟩ := holds.inner h
    dsimp only
    split
    · rename_i name parameters result e
      rw [e] at opening
      obtain ⟨named, shapedParameters, shapedResult⟩ := opening
      refine leads_some ⟨⟨holds.globals, ?_, outside.blocks⟩, trivial⟩
      exact all_cons ⟨named, shapedParameters, shapedResult, body⟩ holds.functions
    · rename_i condition e
      rw [e] at opening
      exact outside.addStatement ⟨opening, body, trivial⟩
    · rename_i condition thenBody e
      rw [e] at opening
      exact outside.addStatement ⟨opening.1, opening.2, body⟩
    · rename_i condition e
      rw [e] at opening
      exact outside.addStatement ⟨opening, body⟩
    · rename_i subject done e
      rw [e] at opening
      exact outside.addStatement ⟨opening.1, cases_shaped (all_reverse opening.2) body⟩
    · exact leads_none

theorem Holds.nextBranch (holds : c.Holds W) {k : Keyword} : Leads W (c.nextBranch k) := by
  rw [Configuration.nextBranch]
  split
  · exact leads_none
  · rename_i b rest h
    obtain ⟨opening, body, outside⟩ := holds.inner h
    dsimp only
    split
    · rename_i condition e
      rw [e] at opening
      exact outside.openBlock ⟨opening, body⟩
    · rename_i subject done value e
      rw [e] at opening
      obtain ⟨shapedSubject, valued, shapedValue⟩ := opening
      exact outside.startExpression
        ⟨shapedSubject, all_cons ⟨value, _, rfl, shapedValue, body⟩ valued⟩
    · rename_i subject done value e
      rw [e] at opening
      obtain ⟨shapedSubject, valued, shapedValue⟩ := opening
      exact outside.openBlock
        ⟨shapedSubject, all_cons ⟨value, _, rfl, shapedValue, body⟩ valued⟩
    · exact leads_none

theorem Holds.finishGoal (holds : c.Holds W) {e : Expr} {goal : Goal} (t : Terminal)
    (shaped : e.Shaped W) (shapedGoal : goal.Shaped W) : Leads W (c.finishGoal e goal t) := by
  unfold Configuration.finishGoal
  split
  · obtain ⟨name, typeName, done⟩ := shapedGoal
    exact holds.startExpression ⟨name, typeName, all_cons shaped done⟩
  · obtain ⟨name, typeName, done⟩ := shapedGoal
    refine holds.goTo ⟨name, typeName, ?_, by simp⟩
    intro l hl
    rw [Option.mem_some_iff] at hl
    subst hl
    exact Expr.allShaped_iff.2 (all_reverse (all_cons shaped done))
  · exact holds.addGlobal ⟨shapedGoal.1, shapedGoal.2, by simpa using shaped, by simp⟩
  · exact holds.addStatement ⟨shapedGoal.1, shapedGoal.2, by simpa using shaped⟩
  · exact holds.openBlock shaped
  · exact holds.openBlock shaped
  · exact holds.startExpression ⟨shaped, by simp [Valued]⟩
  · exact holds.openBlock ⟨shaped, by simp [Valued]⟩
  · exact holds.openBlock ⟨shapedGoal.1, shapedGoal.2, shaped⟩
  · exact holds.addStatement shaped
  · exact holds.addStatement shaped
  · exact holds.startExpression shaped
  · exact holds.addStatement ⟨shapedGoal, shaped⟩
  · exact leads_none

theorem Holds.afterOperand (holds : c.Holds W) {goal : Goal} {nests : List Nest}
    {pending : Operands} {e : Expr} (t : Terminal) (shapedGoal : goal.Shaped W)
    (inside : ∀ n ∈ nests, n.Shaped W) (waiting : Parser.Shaped W pending) (shaped : e.Shaped W)
    (atom : e.level = 5) : Leads W (c.afterOperand goal nests pending e t) := by
  have joined := whole_shaped waiting shaped atom
  unfold Configuration.afterOperand
  split
  · rename_i s
    split
    · rename_i op h
      have known : op ∈ Operator.all := by
        cases s <;> simp_all [Symbol.operator?, Operator.all]
      have above : ∀ p ∈ pending.head?, p.2.level < e.level := by
        intro p _
        rw [atom]
        exact Operator.level_lt
      have tight : op.level ≤ e.level := by
        rw [atom]
        exact Nat.le_of_lt Operator.level_lt
      obtain ⟨around, left, ordered, below⟩ :=
        settle_shaped waiting shaped tight above
      exact holds.goTo ⟨shapedGoal, inside, ⟨known, ordered, left, below, around⟩, trivial⟩
    · dsimp only
      split
      · exact holds.finishGoal _ joined shapedGoal
      · rename_i around nests
        have outside := inside _ List.mem_cons_self
        exact holds.goTo ⟨shapedGoal, fun n hn => inside n (by simp [hn]), outside, joined, rfl⟩
      · rename_i name around nests
        obtain ⟨named, outside⟩ := inside _ List.mem_cons_self
        exact holds.goTo
          ⟨shapedGoal, fun n hn => inside n (by simp [hn]), outside, ⟨named, joined⟩, rfl⟩
      · rename_i name done around nests
        obtain ⟨named, before, outside⟩ := inside _ List.mem_cons_self
        exact holds.goTo ⟨shapedGoal,
          all_cons ⟨named, all_cons joined before, outside⟩ fun n hn => inside n (by simp [hn]),
          trivial, trivial⟩
      · rename_i name done around nests
        obtain ⟨named, before, outside⟩ := inside _ List.mem_cons_self
        have arguments := Expr.allShaped_iff.2 (all_reverse (all_cons joined before))
        exact holds.goTo
          ⟨shapedGoal, fun n hn => inside n (by simp [hn]), outside, ⟨named, arguments⟩, rfl⟩
      · rename_i done around nests
        obtain ⟨before, outside⟩ := inside _ List.mem_cons_self
        exact holds.goTo ⟨shapedGoal,
          all_cons ⟨all_cons joined before, outside⟩ fun n hn => inside n (by simp [hn]),
          trivial, trivial⟩
      · rename_i done around nests
        obtain ⟨before, outside⟩ := inside _ List.mem_cons_self
        have elements := Expr.allShaped_iff.2 (all_reverse (all_cons joined before))
        exact holds.goTo
          ⟨shapedGoal, fun n hn => inside n (by simp [hn]), outside, elements, rfl⟩
      · exact leads_none
  · split
    · exact holds.finishGoal _ joined shapedGoal
    · exact leads_none

theorem Holds.startOperand (holds : c.Holds W) {goal : Goal} {nests : List Nest}
    {pending : Operands} {t : Token} (fits : t.Fits W place) (shapedGoal : goal.Shaped W)
    (inside : ∀ n ∈ nests, n.Shaped W) (waiting : Parser.Shaped W pending) :
    Leads W (c.startOperand goal nests pending t) := by
  unfold Configuration.startOperand
  split
  · rename_i kind
    exact holds.goTo ⟨shapedGoal, inside, waiting, fits.name kind⟩
  · exact holds.goTo ⟨shapedGoal, inside, waiting, rfl⟩
  · exact holds.goTo ⟨shapedGoal, all_cons waiting inside, trivial, trivial⟩
  · exact holds.goTo ⟨shapedGoal, all_cons ⟨by simp, waiting⟩ inside, trivial, trivial⟩
  · split
    · rename_i value known
      exact holds.goTo ⟨shapedGoal, inside, waiting, fits.literal value known, rfl⟩
    · exact leads_none

theorem Holds.closeEmpty (holds : c.Holds W) {goal : Goal} {nests : List Nest} (t : Terminal)
    (shapedGoal : goal.Shaped W) (inside : ∀ n ∈ nests, n.Shaped W) :
    Leads W (c.closeEmpty goal nests t) := by
  unfold Configuration.closeEmpty
  split
  · obtain ⟨name, typeName, done⟩ := shapedGoal
    refine holds.goTo ⟨name, typeName, ?_, by simp⟩
    intro l hl
    rw [Option.mem_some_iff] at hl
    subst hl
    exact Expr.allShaped_iff.2 (all_reverse done)
  · obtain ⟨named, before, outside⟩ := inside _ List.mem_cons_self
    have arguments := Expr.allShaped_iff.2 (all_reverse before)
    exact holds.goTo
      ⟨shapedGoal, fun n hn => inside n (by simp [hn]), outside, ⟨named, arguments⟩, rfl⟩
  · obtain ⟨before, outside⟩ := inside _ List.mem_cons_self
    have elements := Expr.allShaped_iff.2 (all_reverse before)
    exact holds.goTo ⟨shapedGoal, fun n hn => inside n (by simp [hn]), outside, elements, rfl⟩
  · exact leads_none

theorem Holds.shiftExpression (holds : c.Holds W) {goal : Goal} {nests : List Nest}
    {pending : Operands} {point : Point} {t : Token} (fits : t.Fits W place)
    (shaped : (Spot.expression goal nests pending point).Shaped W place) :
    Leads W (c.shiftExpression goal nests pending point t) := by
  obtain ⟨shapedGoal, inside, waiting, at_point⟩ := shaped
  unfold Configuration.shiftExpression
  split
  · exact holds.startOperand fits shapedGoal inside waiting
  · split
    · rename_i r closes
      have leads := holds.closeEmpty t.kind shapedGoal inside
      rwa [closes] at leads
    · exact holds.startOperand fits shapedGoal inside waiting
  · split
    · rename_i value known
      exact holds.goTo
        ⟨shapedGoal, inside, waiting, fits.negative at_point value known, rfl⟩
    · exact leads_none
  · rename_i name
    split
    · exact holds.goTo
        ⟨shapedGoal, all_cons ⟨at_point, by simp, waiting⟩ inside, trivial, trivial⟩
    · exact holds.goTo ⟨shapedGoal, all_cons ⟨at_point, waiting⟩ inside, trivial, trivial⟩
    · exact holds.afterOperand _ shapedGoal inside waiting (e := .access name none) at_point rfl
  · exact holds.afterOperand _ shapedGoal inside waiting at_point.1 at_point.2

theorem Holds.shiftStatement (holds : c.Holds W) {t : Token} (fits : t.Fits W place) :
    Leads W (c.shiftStatement t) := by
  unfold Configuration.shiftStatement
  split
  · exact holds.goTo trivial
  · exact holds.startExpression trivial
  · exact holds.startExpression trivial
  · exact holds.startExpression trivial
  · exact holds.startExpression trivial
  · exact holds.closeBlock
  · exact holds.nextBranch
  · exact holds.nextBranch
  · exact holds.nextBranch
  · exact holds.startOperand fits trivial (by simp) trivial

theorem Holds.shiftTop (holds : c.Holds W) (functionsOnly : Bool) (t : Terminal) :
    Leads W (c.shiftTop functionsOnly t) := by
  unfold Configuration.shiftTop
  split
  · exact holds.goTo trivial
  · exact holds.goTo trivial
  · exact holds.goTo trivial
  · exact holds.goTo trivial
  · exact leads_none

/-- A token that fits keeps the shape of all that is read. -/
theorem Shaped.shift (shaped : c.Shaped W place) {t : Token} (fits : t.Fits W place) :
    Leads W (c.shift t) := by
  obtain ⟨holds, at_spot⟩ := shaped
  have name : t.kind = .ident → W.name (String.ofList t.text) := fits.name
  unfold Configuration.shift
  dsimp only
  split
  case h_1 => exact holds.shiftTop _ _
  case h_24 => exact holds.shiftStatement fits
  case h_32 spot =>
    rw [spot] at at_spot
    exact holds.shiftExpression fits at_spot
  case h_33 => exact leads_none
  all_goals
    rename_i spot token
    rw [spot] at at_spot
  case h_2 => exact holds.goTo (name token)
  case h_3 => exact holds.goTo at_spot
  case h_4 => exact holds.goTo ⟨at_spot, name token⟩
  case h_5 => exact holds.goTo at_spot
  case h_6 | h_7 => exact holds.startExpression at_spot
  case h_8 => exact holds.addGlobal ⟨at_spot.1, at_spot.2, by simp, by simp⟩
  case h_9 => exact holds.goTo ⟨⟨at_spot.1, at_spot.2, by simp⟩, by simp, trivial, trivial⟩
  case h_10 => exact holds.addGlobal at_spot
  case h_11 => exact holds.goTo (name token)
  case h_12 => exact holds.goTo at_spot
  case h_13 => exact holds.goTo ⟨at_spot, by simp, name token⟩
  case h_14 => exact holds.goTo ⟨at_spot, by simp⟩
  case h_15 => exact holds.goTo ⟨at_spot.1, at_spot.2, name token⟩
  case h_16 => exact holds.goTo at_spot
  case h_17 =>
    obtain ⟨named, done, parameter⟩ := at_spot
    exact holds.goTo ⟨named, all_cons ⟨parameter, name token⟩ done⟩
  case h_18 => exact holds.goTo at_spot
  case h_19 => exact holds.goTo ⟨at_spot.1, all_reverse at_spot.2⟩
  case h_20 => exact holds.goTo at_spot
  case h_21 => exact holds.openBlock ⟨at_spot.1, at_spot.2, by simp⟩
  case h_22 => exact holds.goTo ⟨at_spot.1, at_spot.2, name token⟩
  case h_23 => exact holds.openBlock ⟨at_spot.1, at_spot.2.1, by simpa using at_spot.2.2⟩
  case h_25 => exact holds.goTo (name token)
  case h_26 => exact holds.goTo at_spot
  case h_27 => exact holds.startExpression ⟨at_spot, by simp⟩
  case h_28 => exact holds.addStatement ⟨at_spot, by simp, by simp⟩
  case h_29 => exact holds.goTo ⟨at_spot, name token⟩
  case h_30 => exact holds.startExpression ⟨at_spot.1, by simpa using at_spot.2⟩
  case h_31 => exact holds.addStatement ⟨at_spot.1, by simpa using at_spot.2, by simp⟩

theorem Shaped.program? (shaped : c.Shaped W place) {p : Program} (h : c.program? = some p) :
    p.Shaped W := by
  rw [Configuration.program?] at h
  split at h
  · cases h
    exact ⟨all_reverse shaped.holds.globals, all_reverse shaped.holds.functions⟩
  · cases h

end Configuration

/-- Tokens that all fit are read as a program of the shape. -/
theorem readTokens_shaped {fuel : Nat} {c : Configuration} {place : Place} {last : Position}
    {cursor : Cursor} {p : Program} {ts : List (Place × Token)}
    (read : readTokens fuel c place last cursor = .ok (p, ts)) (shaped : c.Shaped W place)
    (fits : ∀ place t, (place, t) ∈ ts → t.Fits W place) : p.Shaped W := by
  induction fuel generalizing c place last cursor ts with
  | zero => cases read
  | succ fuel ih =>
    rw [readTokens] at read
    split at read
    · cases read
    · rename_i t cursor' next
      split at read
      · split at read
        · rename_i q ends
          cases read
          exact shaped.program? ends
        · cases read
      · split at read
        · cases read
        · rename_i c' place' leads
          cases rest : readTokens fuel c' place' t.position cursor' with
          | error e =>
            rw [rest] at read
            cases read
          | ok r =>
            rw [rest] at read
            cases read
            have here : t.Fits W place := fits place t (by simp)
            exact ih rest (shaped.shift here c' place' leads)
              fun place t h => fits place t (by simp [h])

end Parser

end PlcLang
