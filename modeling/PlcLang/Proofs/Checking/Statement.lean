import PlcLang.Proofs.Checking.Scope

namespace PlcLang

open Checking Annotations

theorem declaredType_accepts {declared : Option Ty} {u t : Ty} {untyped : Cause}
    {subject : Node Label} (h : declaredType declared (some u) untyped subject = .ok t) :
    t.accepts u = true := by
  cases declared with
  | none =>
    cases h
    exact Ty.accepts_self u
  | some d =>
    simp only [declaredType, bind, Except.bind] at h
    split at h
    · contradiction
    · rename_i ok
      cases h
      exact requireAssignable_ok.1 ok

theorem declaredType_none {declared : Option Ty} {t : Ty} {untyped : Cause}
    {subject : Node Label} (h : declaredType declared none untyped subject = .ok t) :
    declared = some t := by
  cases declared with
  | none => cases h
  | some d =>
    cases h
    rfl

theorem resolveOptional_nil {subject : Node Label} :
    resolveOptional (.string Ty.nil.name) subject = .ok (some .nil) := rfl

theorem content_ofNode {value : Node Label} (given : value.isAbsent = false) :
    Content.ofNode value = .node value := by
  cases value <;> first | rfl | simp [Node.isAbsent] at given

/-! What the checker asks of a statement, by its form. -/

section

variable {Γ Γ' : Context} {σ σ' : Annotations} {label : Label} {t returns : Ty} {name : Json}
  {check : Nat} {value condition statements : Node Label} {last : Bool} {u : Unit}

theorem gives_declare {isMutable : Bool} {subject : Node Label} :
    (Γ.declare check label name t isMutable subject).Gives σ Γ' σ' ↔
      ∃ key, name.key? = some key ∧
        Γ.addVariable key ⟨⟨check, label⟩, name, t, isMutable⟩ = some Γ' ∧
        σ.modify label (fun a => { a with binding := some ⟨⟨check, label⟩, name, t, isMutable⟩ }) =
          σ' := by
  simp only [Context.declare, gives_lift_bind, key_ok]
  constructor
  · rintro ⟨key, hk, h⟩
    split at h
    · rename_i added
      simp only [gives_bind, gives_annotate, gives_pure] at h
      obtain ⟨_, _, rfl, rfl, rfl⟩ := h
      exact ⟨key, hk, added, rfl⟩
    · exact (gives_throw h).elim
  · rintro ⟨key, hk, added, rfl⟩
    refine ⟨key, hk, ?_⟩
    simp only [added, gives_bind, gives_annotate, gives_pure]
    exact ⟨(), _, rfl, trivial, rfl⟩

theorem gives_checkOptional {u : Option Ty} :
    (value.checkOptional Γ).Gives σ u σ' ↔
      (value = .absent ∧ none = u ∧ σ = σ') ∨
        (value.isAbsent = false ∧ ∃ t, (value.checkExpression Γ).Gives σ t σ' ∧ some t = u) := by
  unfold Node.checkOptional
  cases given : value.isAbsent with
  | true =>
    obtain rfl := isAbsent_iff.1 given
    simp [gives_pure]
  | false =>
    have stands : value ≠ .absent := fun absent => by simp [isAbsent_iff.2 absent] at given
    simp only [Bool.false_eq_true, ↓reduceIte, gives_bind, gives_pure, stands, false_and, false_or,
      true_and]
    constructor
    · rintro ⟨t, _, found, rfl, rfl⟩
      exact ⟨t, found, rfl⟩
    · rintro ⟨t, found, rfl⟩
      exact ⟨t, σ', found, rfl, rfl⟩

theorem gives_checkCondition {statement : String} :
    (condition.checkCondition Γ statement).Gives σ u σ' ↔
      (condition.checkExpression Γ).Gives σ .boolean σ' := by
  constructor
  · intro h
    obtain ⟨t, _, test, h⟩ := gives_bind.1 h
    split at h
    · exact (gives_throw h).elim
    · rename_i boolean
      obtain ⟨_, rfl⟩ := gives_pure.1 h
      rwa [Decidable.not_not.1 boolean] at test
  · intro test
    exact gives_bind.2 ⟨.boolean, σ', test, gives_pure.2 ⟨rfl, rfl⟩⟩

/-- The last branch of a switch is the default, and only that. -/
theorem gives_checkCaseValue {branch : Node Label} :
    (Node.checkCaseValue Γ t last branch (.ofNode value)).Gives σ u σ' ↔
      (value = .absent ∧ last = true ∧ σ = σ') ∨
        (value.isAbsent = false ∧ last = false ∧
          ∃ v, (value.checkExpression Γ).Gives σ v σ' ∧ t.accepts v = true) := by
  cases given : value.isAbsent with
  | true =>
    obtain rfl := isAbsent_iff.1 given
    cases last with
    | false => simp [Content.ofNode, Node.checkCaseValue, gives_throw]
    | true => simp [Content.ofNode, Node.checkCaseValue, gives_pure]
  | false =>
    have stands : value ≠ .absent := fun absent => by simp [isAbsent_iff.2 absent] at given
    cases last with
    | true => simp [content_ofNode given, stands, Node.checkCaseValue, gives_throw]
    | false =>
      simp only [content_ofNode given, Node.checkCaseValue, gives_unless, gives_bind, gives_lift,
        requireAssignable_ok, stands, false_and, false_or, true_and]
      constructor
      · rintro ⟨_, v, _, found, fits, rfl⟩
        exact ⟨v, found, fits⟩
      · rintro ⟨v, found, fits⟩
        exact ⟨by simp, v, σ', found, fits, rfl⟩

theorem gives_expressionStmt {e : Node Label} :
    ((Node.expressionStmt e).checkStatement check returns Γ).Gives σ Γ' σ' ↔
      ∃ t, e.isCall = true ∧ (e.checkExpression Γ).Gives σ t σ' ∧ Γ = Γ' := by
  constructor
  · intro h
    obtain ⟨call, h⟩ := gives_unless.1 h
    obtain ⟨t, _, found, h⟩ := gives_bind.1 h
    obtain ⟨rfl, rfl⟩ := gives_pure.1 h
    exact ⟨t, by simpa using call, found, rfl⟩
  · rintro ⟨t, call, found, rfl⟩
    refine gives_unless.2 ⟨by simp [call], gives_bind.2 ⟨t, σ', found, ?_⟩⟩
    exact gives_pure.2 ⟨rfl, rfl⟩

theorem gives_declaration {typeName : Json} :
    ((Node.declaration label name typeName value).checkStatement check returns Γ).Gives σ Γ' σ' ↔
      ∃ u declared t τ, (value.checkOptional Γ).Gives σ u τ ∧
        resolveOptional typeName (.declaration label name typeName value) = .ok declared ∧
        declaredType declared u (.untypedVariable name)
          (.declaration label name typeName value) = .ok t ∧
        (Γ.declare check label name t true (.declaration label name typeName value)).Gives τ Γ'
          σ' := by
  constructor
  · intro h
    obtain ⟨u, τ, initial, h⟩ := gives_bind.1 h
    obtain ⟨declared, names, h⟩ := gives_lift_bind.1 h
    obtain ⟨t, type, declares⟩ := gives_lift_bind.1 h
    exact ⟨u, declared, t, τ, initial, names, type, declares⟩
  · rintro ⟨u, declared, t, τ, initial, names, type, declares⟩
    refine gives_bind.2 ⟨u, τ, initial, gives_lift_bind.2 ⟨declared, names, ?_⟩⟩
    exact gives_lift_bind.2 ⟨t, type, declares⟩

theorem gives_assignment {receiver : Node Label} :
    ((Node.assignment receiver value).checkStatement check returns Γ).Gives σ Γ' σ' ↔
      ∃ t u τ, receiver.isAccess = true ∧ (receiver.checkExpression Γ).Gives σ t τ ∧
        (value.checkExpression Γ).Gives τ u σ' ∧ t.accepts u = true ∧ Γ = Γ' := by
  constructor
  · intro h
    obtain ⟨access, h⟩ := gives_unless.1 h
    obtain ⟨t, τ, target, h⟩ := gives_bind.1 h
    obtain ⟨u, _, source, h⟩ := gives_bind.1 h
    obtain ⟨_, fits, h⟩ := gives_lift_bind.1 h
    obtain ⟨rfl, rfl⟩ := gives_pure.1 h
    exact ⟨t, u, τ, by simpa using access, target, source, requireAssignable_ok.1 fits, rfl⟩
  · rintro ⟨t, u, τ, access, target, source, fits, rfl⟩
    refine gives_unless.2 ⟨by simp [access], gives_bind.2 ⟨t, τ, target, ?_⟩⟩
    refine gives_bind.2 ⟨u, σ', source, gives_lift_bind.2 ⟨(), ?_, gives_pure.2 ⟨rfl, rfl⟩⟩⟩
    exact requireAssignable_ok.2 fits

theorem gives_conditional {thenStatements elseStatements : Node Label} :
    ((Node.conditional condition thenStatements elseStatements).checkStatement check returns
        Γ).Gives σ Γ' σ' ↔
      ∃ τ τ', (condition.checkExpression Γ).Gives σ .boolean τ ∧
        thenStatements.isEmpty = false ∧
        (thenStatements.checkBlock check returns Γ.child).Gives τ () τ' ∧
        (elseStatements.checkBlock check returns Γ.child).Gives τ' () σ' ∧ Γ = Γ' := by
  constructor
  · intro h
    obtain ⟨_, τ, test, h⟩ := gives_bind.1 h
    obtain ⟨given, h⟩ := gives_unless.1 h
    obtain ⟨_, τ', chosen, h⟩ := gives_bind.1 h
    obtain ⟨_, _, otherwise, h⟩ := gives_bind.1 h
    obtain ⟨rfl, rfl⟩ := gives_pure.1 h
    exact ⟨τ, τ', gives_checkCondition.1 test, by simpa using given, chosen, otherwise, rfl⟩
  · rintro ⟨τ, τ', test, given, chosen, otherwise, rfl⟩
    refine gives_bind.2 ⟨(), τ, gives_checkCondition.2 test, gives_unless.2 ⟨by simp [given], ?_⟩⟩
    refine gives_bind.2 ⟨(), τ', chosen, gives_bind.2 ⟨(), σ', otherwise, ?_⟩⟩
    exact gives_pure.2 ⟨rfl, rfl⟩

theorem gives_switch {cases : Node Label} :
    ((Node.switch condition cases).checkStatement check returns Γ).Gives σ Γ' σ' ↔
      ∃ t τ, (condition.checkExpression Γ).Gives σ t τ ∧ cases.isEmpty = false ∧
        (cases.checkCases check returns Γ t).Gives τ () σ' ∧ Γ = Γ' := by
  constructor
  · intro h
    obtain ⟨t, τ, subject, h⟩ := gives_bind.1 h
    obtain ⟨given, h⟩ := gives_unless.1 h
    obtain ⟨_, _, branches, h⟩ := gives_bind.1 h
    obtain ⟨rfl, rfl⟩ := gives_pure.1 h
    exact ⟨t, τ, subject, by simpa using given, branches, rfl⟩
  · rintro ⟨t, τ, subject, given, branches, rfl⟩
    refine gives_bind.2 ⟨t, τ, subject, gives_unless.2 ⟨by simp [given], ?_⟩⟩
    exact gives_bind.2 ⟨(), σ', branches, gives_pure.2 ⟨rfl, rfl⟩⟩

theorem gives_loop :
    ((Node.loop condition statements).checkStatement check returns Γ).Gives σ Γ' σ' ↔
      ∃ τ, (condition.checkExpression Γ).Gives σ .boolean τ ∧
        (statements.checkBlock check returns Γ.child).Gives τ () σ' ∧ Γ = Γ' := by
  constructor
  · intro h
    obtain ⟨_, τ, test, h⟩ := gives_bind.1 h
    obtain ⟨_, _, body, h⟩ := gives_bind.1 h
    obtain ⟨rfl, rfl⟩ := gives_pure.1 h
    exact ⟨τ, gives_checkCondition.1 test, body, rfl⟩
  · rintro ⟨τ, test, body, rfl⟩
    refine gives_bind.2 ⟨(), τ, gives_checkCondition.2 test, ?_⟩
    exact gives_bind.2 ⟨(), σ', body, gives_pure.2 ⟨rfl, rfl⟩⟩

theorem gives_ret :
    ((Node.ret value).checkStatement check returns Γ).Gives σ Γ' σ' ↔
      ∃ t, (value.checkExpression Γ).Gives σ t σ' ∧ returns.accepts t = true ∧ Γ = Γ' := by
  constructor
  · intro h
    obtain ⟨t, _, found, h⟩ := gives_bind.1 h
    obtain ⟨_, fits, h⟩ := gives_lift_bind.1 h
    obtain ⟨rfl, rfl⟩ := gives_pure.1 h
    exact ⟨t, found, requireAssignable_ok.1 fits, rfl⟩
  · rintro ⟨t, found, fits, rfl⟩
    refine gives_bind.2 ⟨t, σ', found, gives_lift_bind.2 ⟨(), ?_, gives_pure.2 ⟨rfl, rfl⟩⟩⟩
    exact requireAssignable_ok.2 fits

theorem gives_checkBlock {statements : List (Node Label)} :
    ((Node.list statements).checkBlock check returns Γ).Gives σ () σ' ↔
      ∃ Γ', (Node.checkStatements check returns Γ statements).Gives σ Γ' σ' := by
  constructor
  · intro h
    obtain ⟨Γ', _, all, h⟩ := gives_bind.1 h
    obtain ⟨_, rfl⟩ := gives_pure.1 h
    exact ⟨Γ', all⟩
  · rintro ⟨Γ', all⟩
    exact gives_bind.2 ⟨Γ', σ', all, gives_pure.2 ⟨rfl, rfl⟩⟩

theorem gives_checkCase :
    ((Node.case value statements).checkCase check returns Γ t last).Gives σ () σ' ↔
      ∃ τ, ((value = .absent ∧ last = true ∧ σ = τ) ∨
          (value.isAbsent = false ∧ last = false ∧
            ∃ v, (value.checkExpression Γ).Gives σ v τ ∧ t.accepts v = true)) ∧
        (statements.checkBlock check returns Γ.child).Gives τ () σ' := by
  constructor
  · intro h
    obtain ⟨_, τ, selects, body⟩ := gives_bind.1 h
    exact ⟨τ, gives_checkCaseValue.1 selects, body⟩
  · rintro ⟨τ, selects, body⟩
    exact gives_bind.2 ⟨(), τ, gives_checkCaseValue.2 selects, body⟩

/-- Only a branch is accepted among the branches of a switch. -/
theorem case_of_gives {branch : Node Label}
    (h : (branch.checkCase check returns Γ t last).Gives σ u σ') :
    ∃ value statements, branch = .case value statements := by
  cases branch with
  | case value statements => exact ⟨value, statements, rfl⟩
  | _ =>
    obtain ⟨_, _, _, h⟩ := gives_bind.1 h
    obtain ⟨_, _, _, h⟩ := gives_bind.1 h
    exact (gives_throw h).elim

end

section

variable {D : Demands} {Γ Γ' : Context} {σ σ' : Annotations} {returns : Ty} {check : Nat}

/-- A first value is one of the type that its variable is found to have. -/
theorem initial_of_check {value : Node Label} {typeName : Json} {declared u : Option Ty} {t : Ty}
    {untyped : Cause} {subject : Node Label} (h : (value.checkOptional Γ).Gives σ u σ')
    (hd : resolveOptional typeName subject = .ok declared)
    (ht : declaredType declared u untyped subject = .ok t) :
    Within value.labels σ σ' ∧ ∀ {found : Annotations}, Γ.Regular → Lasts found σ' value.labels →
      (D.typed → value.Every (Node.Disciplined found)) →
      (D.typed → value.isAbsent = true → typeName = .string Ty.nil.name) →
      Initial D found Γ value t := by
  rcases gives_checkOptional.1 h with ⟨rfl, rfl, rfl⟩ | ⟨given, v, hv, rfl⟩
  · refine ⟨.refl, fun _ _ _ hn => .none fun d => ?_⟩
    rw [hn d rfl, resolveOptional_nil] at hd
    have he := declaredType_none ht
    rw [← Except.ok.inj hd] at he
    exact (Option.some.inj he).symm
  · obtain ⟨w, typed⟩ := typed_of_check value hv
    exact ⟨w, fun hr last hd _ =>
      .value given (typed hr last hd) (declaredType_accepts ht)⟩

mutual
/-- A statement that the checker accepts fits, as long as what it found lasts. -/
theorem checked_of_check (s : Node Label) {Γ Γ' : Context} {σ σ' : Annotations}
    (h : (s.checkStatement check returns Γ).Gives σ Γ' σ') :
    Within s.labels σ σ' ∧ ∀ {found : Annotations} {visible : List Key},
      Fit Γ visible found σ' s.labels → (D.typed → s.Every (Node.Disciplined found)) →
      (D.clear → s.HidesNothing visible) → Checked D found returns Γ s Γ' := by
  match s with
  | .expressionStmt e =>
    obtain ⟨_, _, he, rfl⟩ := gives_expressionStmt.1 h
    obtain ⟨w, typed⟩ := typed_of_check e he
    exact ⟨w, fun fit hd _ => .expression (typed fit.regular fit.lasts fun d => (hd d).2)⟩
  | .declaration label name typeName value =>
    obtain ⟨u, declared, t, _, hv, hd, ht, declares⟩ := gives_declaration.1 h
    obtain ⟨key, hk, added, rfl⟩ := gives_declare.1 declares
    obtain ⟨w, initial⟩ := initial_of_check hv hd ht
    refine ⟨(w.append Within.modify).mono (by grind [Node.labels]), fun fit hd _ => ?_⟩
    have adds := Context.Adds.of_avoids added fit.avoids (by simp [Node.labels])
    refine .declaration ?_ hk adds rfl (by rw [fit.lasts.head])
    exact initial fit.regular fit.lasts.tail (fun d => (hd d).2) fun d => (hd d).1
  | .assignment receiver value =>
    obtain ⟨t, u, _, access, ht, hu, fits, rfl⟩ := gives_assignment.1 h
    obtain ⟨wt, target⟩ := typed_of_check receiver ht
    obtain ⟨wu, source⟩ := typed_of_check value hu
    refine ⟨wt.append wu, fun fit hd _ => ?_⟩
    have target := target fit.regular (fit.left wu).lasts fun d => (hd d).2.1
    have source := source fit.regular fit.right.lasts fun d => (hd d).2.2
    cases receiver with
    | access label name offset => exact .assignment target source fits
    | _ => simp [Node.isAccess] at access
  | .conditional condition thenStatements elseStatements =>
    obtain ⟨_, _, hc, _, ht, he, rfl⟩ := gives_conditional.1 h
    obtain ⟨wc, test⟩ := typed_of_check (D := D) condition hc
    obtain ⟨wt, thens, _, rfl, then_all⟩ := checkedBlock_of_check thenStatements ht
    obtain ⟨we, elses, _, rfl, else_all⟩ := checkedBlock_of_check elseStatements he
    refine ⟨wc.append (wt.append we), fun fit hd hh =>
      .conditional ?_ (then_all (fit.right.left we).child ?_ ?_)
        (else_all fit.right.right.child ?_ ?_)⟩
    · exact test fit.regular (fit.left (wt.append we)).lasts fun d => (hd d).2.1
    · exact fun d => (hd d).2.2.1.2
    · exact fun d => (hh d).1
    · exact fun d => (hd d).2.2.2.2
    · exact fun d => (hh d).2
  | .switch condition cases =>
    obtain ⟨t, _, hc, given, hb, rfl⟩ := gives_switch.1 h
    obtain ⟨wc, subject⟩ := typed_of_check (D := D) condition hc
    cases cases with
    | list cases =>
      obtain ⟨wb, branches⟩ := checkedCases_of_check cases hb
      refine ⟨wc.append wb, fun fit hd hh => ?_⟩
      have subject := subject fit.regular (fit.left wb).lasts fun d => (hd d).2.1
      have nonempty : cases ≠ [] := by simpa [Node.isEmpty] using given
      exact .switch subject (branches fit.right (fun d => (hd d).2.2.2) hh nonempty)
    | _ => exact (gives_throw hb).elim
  | .loop condition statements =>
    obtain ⟨_, hc, hb, rfl⟩ := gives_loop.1 h
    obtain ⟨wc, test⟩ := typed_of_check (D := D) condition hc
    obtain ⟨wb, statements, _, rfl, body⟩ := checkedBlock_of_check statements hb
    refine ⟨wc.append wb, fun fit hd hh =>
      .loop ?_ (fun d key hk => ?_) (body fit.right.child ?_ ?_)⟩
    · exact test fit.regular (fit.left wb).lasts fun d => (hd d).2.1
    · have hidden := (hh d).1 key hk
      cases hf : Γ.findVariable key with
      | none => rfl
      | some b => exact (hidden (fit.sees key b hf)).elim
    · exact fun d => (hd d).2.2.2
    · exact fun d => (hh d).2
  | .ret value =>
    obtain ⟨t, ht, fits, rfl⟩ := gives_ret.1 h
    obtain ⟨w, typed⟩ := typed_of_check value ht
    exact ⟨w, fun fit hd _ => .ret (typed fit.regular fit.lasts fun d => (hd d).2) fits⟩
  | .absent | .list _ | .source .. | .global .. | .parameter .. | .function .. | .case ..
  | .literal .. | .group .. | .binary .. | .access .. | .call .. | .listLiteral .. =>
    exact (gives_throw h).elim

theorem checkedBlock_of_check (b : Node Label) {Γ : Context} {u : Unit} {σ σ' : Annotations}
    (h : (b.checkBlock check returns Γ).Gives σ u σ') :
    Within b.labels σ σ' ∧ ∃ statements Γ', b = .list statements ∧
      ∀ {found : Annotations} {visible : List Key},
      Fit Γ visible found σ' (Node.allLabels statements) →
      (D.typed → Node.EveryOne (Node.Disciplined found) statements) →
      (D.clear → Node.BodyHidesNothing visible statements) →
      CheckedAll D found returns Γ statements Γ' := by
  cases b with
  | list statements =>
    obtain ⟨Γ', hs⟩ := gives_checkBlock.1 h
    obtain ⟨w, checked⟩ := checkedAll_of_check statements hs
    exact ⟨w, statements, Γ', rfl, checked⟩
  | _ => exact (gives_throw h).elim

theorem checkedAll_of_check (statements : List (Node Label)) {Γ Γ' : Context}
    {σ σ' : Annotations} (h : (Node.checkStatements check returns Γ statements).Gives σ Γ' σ') :
    Within (Node.allLabels statements) σ σ' ∧
      ∀ {found : Annotations} {visible : List Key},
      Fit Γ visible found σ' (Node.allLabels statements) →
      (D.typed → Node.EveryOne (Node.Disciplined found) statements) →
      (D.clear → Node.BodyHidesNothing visible statements) →
      CheckedAll D found returns Γ statements Γ' := by
  match statements with
  | [] =>
    obtain ⟨rfl, rfl⟩ := gives_pure.1 h
    exact ⟨.refl, fun _ _ _ => .nil⟩
  | statement :: rest =>
    obtain ⟨Γ₁, _, hs, ho⟩ := gives_bind.1 h
    obtain ⟨ws, first⟩ := checked_of_check statement hs
    obtain ⟨wo, others⟩ := checkedAll_of_check rest ho
    refine ⟨ws.append wo, fun fit hd hh => ?_⟩
    have first := first (fit.left wo) (fun d => (hd d).1) fun d => (hh d).1
    exact .cons first (others (first.fit fit) (fun d => (hd d).2) fun d => (hh d).2)

theorem checkedCases_of_check (cases : List (Node Label)) {Γ : Context} {t : Ty} {u : Unit}
    {σ σ' : Annotations} (h : (Node.checkEachCase check returns Γ t cases).Gives σ u σ') :
    Within (Node.allLabels cases) σ σ' ∧
      ∀ {found : Annotations} {visible : List Key},
      Fit Γ visible found σ' (Node.allLabels cases) →
      (D.typed → Node.EveryOne (Node.Disciplined found) cases) →
      (D.clear → Node.NoneHides visible cases) → cases ≠ [] →
      CheckedCases D found returns Γ t cases := by
  match cases with
  | [] =>
    obtain ⟨_, rfl⟩ := gives_pure.1 h
    exact ⟨.refl, fun _ _ _ hn => (hn rfl).elim⟩
  | branch :: rest =>
    obtain ⟨_, _, hb, ho⟩ := gives_bind.1 h
    obtain ⟨wo, others⟩ := checkedCases_of_check rest ho
    cases branch with
    | case value statements =>
      obtain ⟨_, hv, hb⟩ := gives_checkCase.1 hb
      obtain ⟨wb, statements, _, rfl, body⟩ := checkedBlock_of_check statements hb
      rcases hv with ⟨rfl, last, rfl⟩ | ⟨given, more, v, hv, fits⟩
      · obtain rfl := List.isEmpty_iff.1 last
        refine ⟨wb.append wo, fun fit hd hh _ => .last (body (fit.left wo).child ?_ ?_)⟩
        · exact fun d => (hd d).1.2.2.2
        · exact fun d => (hh d).1
      · obtain ⟨wv, typed⟩ := typed_of_check (D := D) value hv
        refine ⟨(wv.append wb).append wo, fun fit hd hh _ =>
          .cons given ?_ fits (body (fit.left wo).right.child ?_ ?_) (others fit.right ?_ ?_ ?_)⟩
        · exact typed fit.regular ((fit.left wo).left wb).lasts fun d => (hd d).1.2.1
        · exact fun d => (hd d).1.2.2.2
        · exact fun d => (hh d).1
        · exact fun d => (hd d).2
        · exact fun d => (hh d).2
        · exact fun he => by simp [he] at more
    | _ => nomatch case_of_gives hb
end

theorem within_of_checkStatement {s : Node Label}
    (h : (s.checkStatement check returns Γ).Gives σ Γ' σ') : Within s.labels σ σ' :=
  (checked_of_check (D := ⟨False, False⟩) s h).1

theorem within_of_checkStatements {statements : List (Node Label)}
    (h : (Node.checkStatements check returns Γ statements).Gives σ Γ' σ') :
    Within (Node.allLabels statements) σ σ' :=
  (checkedAll_of_check (D := ⟨False, False⟩) statements h).1

theorem within_of_checkCases {cases : List (Node Label)} {t : Ty} {u : Unit}
    (h : (Node.checkEachCase check returns Γ t cases).Gives σ u σ') :
    Within (Node.allLabels cases) σ σ' :=
  (checkedCases_of_check (D := ⟨False, False⟩) cases h).1

theorem within_of_checkBlock {b : Node Label} {u : Unit}
    (h : (b.checkBlock check returns Γ).Gives σ u σ') : Within b.labels σ σ' :=
  (checkedBlock_of_check (D := ⟨False, False⟩) b h).1

end

end PlcLang
