import PlcLang.Proofs.Descent.Ranking

namespace PlcLang

mutual
/-- A bound on the steps that a node without loops takes, where a call takes at most `cost`. -/
def Node.weight {α : Type} (cost : Nat) : Node α → Nat
  | .absent => 1
  | .list items => Node.weights cost items
  | .source globals functions => globals.weight cost + functions.weight cost
  | .global _ _ _ _ value => value.weight cost + 1
  | .parameter .. => 1
  | .function .. => 1
  | .expressionStmt expression => expression.weight cost + 2
  | .declaration _ _ _ value => value.weight cost + 2
  | .assignment receiver value => receiver.weight cost + value.weight cost + 1
  | .conditional condition thenStatements elseStatements =>
    condition.weight cost + thenStatements.weight cost + elseStatements.weight cost + 2
  | .case value statements => value.weight cost + statements.weight cost + 1
  | .switch condition cases => condition.weight cost + cases.weight cost + 2
  | .loop condition statements => condition.weight cost + statements.weight cost
  | .ret value => value.weight cost + 2
  | .literal .. => 1
  | .group _ expression => expression.weight cost + 1
  | .binary _ _ left right => left.weight cost + right.weight cost + 3
  | .access _ _ offset => offset.weight cost + 2
  | .call _ _ arguments => arguments.weight cost + cost
  | .listLiteral _ elements => elements.weight cost + 1

/-- The nodes one after another, and a step for each and for their end. -/
def Node.weights {α : Type} (cost : Nat) : List (Node α) → Nat
  | [] => 1
  | n :: rest => n.weight cost + Node.weights cost rest + 1
end

/-- The statements of a branch of a switch. -/
def Node.branchWeight {α : Type} (cost : Nat) : Node α → Nat
  | .case _ statements => statements.weight cost
  | _ => 0

/-- The statements of a function. -/
def Node.code {α : Type} : Node α → Node α
  | .function _ _ _ _ statements => statements
  | _ => .absent

section

variable {α : Type} {cost : Nat}

mutual
theorem weight_pos : (n : Node α) → 0 < n.weight cost
  | .absent | .parameter .. | .function .. | .literal .. => by simp [Node.weight]
  | .list items => weights_pos items
  | .source globals functions => by
    have := weight_pos globals
    simp only [Node.weight]
    omega
  | .loop condition statements => by
    have := weight_pos condition
    simp only [Node.weight]
    omega
  | .call _ _ arguments => by
    have := weight_pos arguments
    simp only [Node.weight]
    omega
  | .global .. | .expressionStmt _ | .declaration .. | .assignment .. | .conditional ..
  | .case .. | .switch .. | .ret _ | .group .. | .binary .. | .access .. | .listLiteral .. => by
    simp only [Node.weight]
    omega

theorem weights_pos : (ns : List (Node α)) → 0 < Node.weights cost ns
  | [] => by simp [Node.weights]
  | n :: rest => by
    simp only [Node.weights]
    omega
end

theorem weights_of_items {n : Node α} {items : List (Node α)} (listed : n.items = .ok items) :
    Node.weights cost items = n.weight cost := by
  cases n with
  | list items =>
    cases listed
    rfl
  | _ => cases listed

/-- The value of a branch, and its statements, are parts of it. -/
theorem weight_of_content {n value : Node α} (given : n.content? = some (.node value)) :
    value.weight cost + n.branchWeight cost < n.weight cost := by
  have same {v : Node α} (h : some (Content.ofNode v) = some (.node value)) : value = v := by
    cases v <;> cases h <;> rfl
  cases n with
  | global | declaration | ret =>
    obtain rfl := same given
    simp only [Node.weight, Node.branchWeight]
    omega
  | assignment =>
    obtain rfl := same given
    simp only [Node.weight, Node.branchWeight]
    omega
  | case =>
    obtain rfl := same given
    simp only [Node.weight, Node.branchWeight]
    omega
  | literal label literal =>
    have given := Option.some.inj given
    unfold Content.ofLiteral at given
    split at given <;> cases given
  | _ => cases given

end

namespace Ranking

variable (R : Ranking)

/-- A bound on the steps of a call where the first functions may be called. -/
def price : Nat → Nat
  | 0 => 1
  | i + 1 => price i + ((R.functions[i]?.getD .absent).code).weight (price i) + 2

/-- How many functions, from the first on, may be called above some frames. -/
def near : List Frame → Nat
  | [] => R.functions.length
  | .activation n :: _ => R.reach (n - 2)
  | .global .. :: _ => 0
  | _ :: K => near K

/-- A bound on the steps up to the call of `main`, and of that. -/
def ahead (globals : List (Node Label)) (functions : Node Label) : Nat :=
  Node.weights (R.price 0) globals + functions.weight (R.price 0) + R.price R.functions.length + 2

def frameWork (cost : Nat) : Frame → Nat
  | .global _ rest functions _ => R.ahead rest functions + 1
  | .left _ right _ _ => right.weight cost + 2
  | .test _ _ right _ => right.weight cost + 2
  | .argument _ _ rest _ _ => Node.weights cost rest + cost
  | .element _ rest _ => Node.weights cost rest
  | .assignment _ offset _ _ _ => offset.weight cost + 2
  | .branch _ first second _ => first.weight cost + second.weight cost + 1
  | .subject cases _ => cases.weight cost + 1
  | .case _ default branch rest _ =>
    (default.elim 0 (Node.branchWeight cost)) + branch.branchWeight cost +
      Node.weights cost rest + 1
  | .rest statements _ => Node.weights cost statements + 1
  | _ => 1

def controlWork (cost : Nat) : Control → Nat
  | .start _ => R.ahead R.globals (.list R.functions) + 1
  | .globals rest functions _ => R.ahead rest functions
  | .functions rest _ => Node.weights (R.price 0) rest + R.price R.functions.length + 1
  | .main _ => R.price R.functions.length + 1
  | .evaluate e _ => e.weight cost
  | .execute statements _ => Node.weights cost statements
  | .call n _ => R.price (n - 1)
  | .value _ => 0
  | .ended => 0
  | .leave _ => 0

def framesWork : List Frame → Nat
  | [] => 0
  | f :: K => R.frameWork (R.price (R.near (f :: K))) f + framesWork K

/-- A bound on the steps that are left. -/
def work (c : Control) (K : List Frame) : Nat :=
  R.controlWork (R.price (R.near K)) c + R.framesWork K

variable {R} {c c' : Control} {K K' : List Frame} {n n' r : Nat} {env : Env} {s : Store}
  {defined : List (Node Label)}

theorem price_pos (i : Nat) : 0 < R.price i := by
  cases i with
  | zero => exact Nat.one_pos
  | succ i =>
    simp only [price]
    omega

theorem price_mono {i j : Nat} (h : i ≤ j) : R.price i ≤ R.price j := by
  induction h with
  | refl => exact Nat.le_refl _
  | step _ ih =>
    simp only [price]
    omega

theorem frameWork_pos (cost : Nat) (f : Frame) : 0 < R.frameWork cost f := by
  cases f with
  | argument name done rest =>
    have : 0 < Node.weights cost rest := weights_pos rest
    simp only [frameWork]
    omega
  | element done rest => exact weights_pos rest
  | _ =>
    simp only [frameWork]
    omega

theorem controlWork_pos (cost : Nat) (busy : c.isSettled = false) : 0 < R.controlWork cost c := by
  cases c with
  | evaluate e => exact weight_pos e
  | execute statements => exact weights_pos statements
  | call => exact price_pos _
  | value | ended | leave => cases busy
  | _ =>
    simp only [controlWork, ahead]
    omega

theorem controlWork_settled (cost : Nat) (done : c.isSettled = true) : R.controlWork cost c = 0 := by
  cases c with
  | value | ended | leave => rfl
  | _ => cases done

/-- What may be called above some frames is counted in what they may cost. -/
theorem Waits.le_near (waits : R.Waits defined K r) (part : defined <+: R.functions) :
    r ≤ R.near K := by
  induction waits with
  | bottom => exact part.length_le
  | global => exact Nat.le_refl _
  | @frame f K r inside admits below ih =>
    cases f with
    | activation => cases inside
    | global => exact admits.elim
    | _ => exact ih
  | call => exact Nat.le_refl _

theorem work_settle (busy : c.isSettled = false) (done : c'.isSettled = true) :
    R.work c' K < R.work c K := by
  have pos := controlWork_pos (R := R) (R.price (R.near K)) busy
  simp only [work, controlWork_settled _ done]
  omega

/-- A call that is entered costs more than its code does. -/
theorem price_of_code {i : Nat} {f : Node Label} (here : R.functions[i]? = some f) :
    R.price (i + 1) = R.price i + f.code.weight (R.price i) + 2 := by
  simp only [price, here, Option.getD_some]

/-- The way a switch goes on costs no more than its branches. -/
theorem selects_work {default : Option (Node Label)} {branches : List (Node Label)}
    (selects : Selects env K default branches c K') :
    R.work c K' + 1 ≤ default.elim 0 (Node.branchWeight (R.price (R.near K))) +
      Node.weights (R.price (R.near K)) branches + R.framesWork K := by
  induction selects with
  | none =>
    simp only [work, controlWork, Option.elim, Node.weights]
    omega
  | default listed =>
    simp only [work, controlWork, Option.elim, Node.weights, Node.branchWeight,
      weights_of_items listed]
    omega
  | @skip default branch rest c K' others ih =>
    have less : branch.branchWeight (R.price (R.near K)) ≤ branch.weight (R.price (R.near K)) := by
      cases branch with
      | case =>
        simp only [Node.branchWeight, Node.weight]
        omega
      | _ => exact Nat.zero_le _
    simp only [Option.elim, Node.weights] at ih ⊢
    omega
  | @test default branch value rest subject given =>
    have less : value.weight (R.price (R.near K)) + branch.branchWeight (R.price (R.near K)) <
        branch.weight (R.price (R.near K)) := weight_of_content given
    simp only [work, controlWork, framesWork, near, frameWork, Node.weights]
    omega

/-- In a straight program every step leaves less to do. -/
theorem work_lt (straight : R.straight = true) (numbers : s.Numbers defined)
    (part : defined <+: R.functions) (admits : R.AdmitsControl r c) (waits : R.Waits defined K r)
    (called : ∀ k arguments, c' = .call k arguments → k < R.near K' + 2)
    (moves : Moves s c K n c' K' n') : R.work c' K' < R.work c K := by
  have paid {k : Nat} {arguments : List Value} (same : c' = .call k arguments) :
      R.price (k - 1) ≤ R.price (R.near K') := by
    have lt := called k arguments same
    exact price_mono (by omega)
  cases moves with
  | settle busy done => exact work_settle busy done
  | @finish _ _ f _ _ ready done =>
    have pos := frameWork_pos (R := R) (R.price (R.near (f :: K'))) f
    simp only [work, framesWork, controlWork_settled _ ready, controlWork_settled _ done]
    omega
  | result ready =>
    simp only [work, framesWork, frameWork, controlWork]
    omega
  | start | globalValue | globalBare | functions | main | callMain => exact admits.elim
  | globalDone =>
    simp only [work, controlWork, framesWork, frameWork]
    omega
  | group | left | right | test | boolean | index =>
    simp only [work, controlWork, framesWork, near, frameWork, Node.weight]
    omega
  | plainCall =>
    have paid := paid rfl
    simp only [work, controlWork, Node.weight, Node.weights]
    omega
  | firstArgument | firstElement =>
    simp only [work, controlWork, framesWork, near, frameWork, Node.weight, Node.weights]
    omega
  | nextArgument | nextElement =>
    simp only [work, controlWork, framesWork, near, frameWork, Node.weights]
    omega
  | lastArgument =>
    have paid := paid rfl
    simp only [work, controlWork, framesWork, near, frameWork, Node.weights]
    omega
  | @enter k arguments g declared statements home env items K n known body listed =>
    obtain ⟨i, _, _, _, _, rfl, here⟩ := numbers.defined_of_code known body
    have price : R.price (i + 2 - 1) = R.price i + statements.weight (R.price i) + 2 :=
      price_of_code (getElem?_of_part part here)
    simp only [work, controlWork, framesWork, near, frameWork, weights_of_items listed, reach,
      straight, ↓reduceIte, Nat.add_sub_cancel, price]
    omega
  | statement starts =>
    cases starts with
    | loop => cases admits.1.1.2 straight
    | _ =>
      simp only [work, controlWork, framesWork, near, frameWork, Node.weight, Node.weights]
      omega
  | rest | target =>
    simp only [work, controlWork, framesWork, near, frameWork]
    omega
  | branch listed =>
    rcases listed with listed | listed
    · simp only [work, controlWork, framesWork, near, frameWork, weights_of_items listed]
      omega
    · simp only [work, controlWork, framesWork, near, frameWork, weights_of_items listed]
      omega
  | subject listed selects =>
    have less := selects_work (R := R) selects
    rw [weights_of_items listed] at less
    simp only [Option.elim] at less
    simp only [work, controlWork, framesWork, near, frameWork] at less ⊢
    omega
  | taken listed =>
    simp only [work, controlWork, framesWork, near, frameWork, weights_of_items listed,
      Node.branchWeight]
    omega
  | passed selects =>
    have less := selects_work (R := R) selects
    simp only [work, controlWork, framesWork, near, frameWork] at less ⊢
    omega
  | round | again =>
    cases waits with
    | frame _ loop => cases loop.1.2 straight

/-- What a machine is about to call is counted in what may be called there. -/
theorem Point.lt_near {w : World} {k : Nat} {arguments : List Value}
    (h : R.Point ⟨.call k arguments, K, n, w⟩) : k < R.near K + 2 := by
  cases h with
  | running part numbers admits waits calls =>
    have le := waits.le_near part
    have lt : k < _ + 2 := admits
    omega

/-- Every step of a straight program leaves less to do. -/
theorem Point.work_lt {settings : Settings} {found : Annotations} {m m' : Machine}
    (straight : R.straight = true) (h : R.Point m) (h' : R.Point m')
    (next : m.step settings ⟨R.tree, found⟩ = .next m') :
    R.work m'.control m'.frames < R.work m.control m.frames := by
  have becomes := Machine.becomes next
  obtain ⟨c', K', n', w'⟩ := m'
  cases h with
  | start =>
    cases next
    simp only [work, controlWork, Machine.initial]
    omega
  | @globals rest env w admits numbers =>
    cases becomes with
    | move moves =>
      cases moves with
      | settle busy done => exact work_settle busy done
      | @globalValue g value _ _ _ _ _ given =>
        have less : value.weight (R.price 0) + g.branchWeight (R.price 0) <
            g.weight (R.price 0) := weight_of_content given
        simp only [work, controlWork, framesWork, near, frameWork, ahead, Node.weights]
        omega
      | @globalBare g =>
        have pos : 0 < g.weight (R.price 0) := weight_pos g
        simp only [work, controlWork, framesWork, frameWork, ahead, Node.weights]
        omega
      | functions listed =>
        simp only [work, controlWork, framesWork, ahead, Node.weights,
          weights_of_items listed]
        omega
  | @functions defined rest env w whole numbers =>
    cases becomes with
    | move moves =>
      cases moves with
      | settle busy done => exact work_settle busy done
      | main =>
        simp only [work, controlWork, Node.weights]
        omega
    | define takes =>
      simp only [work, controlWork, Node.weights]
      omega
  | main numbers =>
    cases becomes with
    | move moves =>
      cases moves with
      | settle busy done => exact work_settle busy done
      | callMain found =>
        have lt := h'.lt_near
        simp only [near] at lt
        have paid := price_mono (R := R) (Nat.sub_le_of_le_add (Nat.le_of_lt_succ lt))
        simp only [work, controlWork]
        omega
  | running part numbers admits waits calls =>
    cases becomes with
    | move moves =>
      refine Ranking.work_lt straight numbers part admits waits (fun k arguments same => ?_) moves
      subst same
      exact h'.lt_near
    | define => exact admits.elim

end Ranking

end PlcLang
