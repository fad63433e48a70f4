import PlcLang.Proofs.Checking.Program
import PlcLang.Proofs.Elaboration.Rules
import PlcLang.Proofs.Except

namespace PlcLang

theorem assignable_iff {target source : Ty} :
    Assignable target source ↔ target.accepts source = true := by
  constructor
  · intro h
    cases h with
    | same => exact Ty.accepts_self target
    | any value => simpa [Ty.accepts] using value
    | _ => rfl
  · intro h
    cases target with
    | any => exact .any (by simpa [Ty.accepts] using h)
    | comparable =>
      cases source with
      | any | nil | boolean => cases h
      | comparable => exact .same _
      | _ => constructor
    | _ =>
      obtain rfl := beq_iff_eq.1 h
      exact .same _

theorem literalHas_iff {value : Literal} {subject : Node Label} {t : Ty} :
    value.check subject = .ok t ↔ LiteralHas value t := by
  constructor
  · intro h
    cases value with
    | integer n =>
      simp only [Literal.check] at h
      split at h
      · rename_i inside
        cases h
        exact .integer inside.1 (by omega)
      · cases h
    | decimal d =>
      simp only [Literal.check] at h
      split at h
      · rename_i fits
        cases h
        exact .decimal fits
      · cases h
    | foreign value => cases h
    | _ =>
      cases h
      constructor
  · intro h
    cases h with
    | integer least most => exact if_pos ⟨least, by omega⟩
    | decimal fits => exact if_pos fits
    | _ => rfl

theorem requireAssignable_assignable {target source : Ty} {subject : Node Label} {u : Unit} :
    requireAssignable target source subject = .ok u ↔ Assignable target source :=
  requireAssignable_ok.trans assignable_iff.symm

theorem assignable_boolean {t : Ty} : Assignable .boolean t ↔ t = .boolean := by
  cases t <;> simp [assignable_iff, Ty.accepts]

theorem assignable_integer {t : Ty} : Assignable .integer t ↔ t = .integer := by
  cases t <;> simp [assignable_iff, Ty.accepts]

theorem numericType_iff {op : Operator} {left right : Node Label} {l r t : Ty} :
    numericType op left right l r = .ok t ↔ t ∈ [.integer, .decimal] ∧ l = t ∧ r = t := by
  unfold numericType
  split
  · rename_i number
    simp only [Except.bind_eq_ok, requireAssignable_ok]
    constructor
    · rintro ⟨_, fits, h⟩
      cases h
      rcases number with rfl | rfl
      · exact ⟨by simp, rfl, (beq_iff_eq.1 fits).symm⟩
      · exact ⟨by simp, rfl, (beq_iff_eq.1 fits).symm⟩
    · rintro ⟨-, rfl, rfl⟩
      exact ⟨(), Ty.accepts_self _, rfl⟩
  · rename_i other
    constructor
    · intro h
      cases h
    · rintro ⟨number, rfl, rfl⟩
      exact (other (by simpa using number)).elim

theorem applies_iff {op : Operator} {left right node : Node Label} {l r t : Ty} :
    binaryType op left right node l r = .ok t ↔ Applies op l r t := by
  constructor
  · intro h
    cases op with
    | and | or =>
      simp only [binaryType, Except.bind_eq_ok, requireAssignable_assignable,
        assignable_boolean] at h
      obtain ⟨_, rfl, _, rfl, h⟩ := h
      cases h
      exact .logic (by simp)
    | less | greater | equal | unequal =>
      simp only [binaryType, Except.bind_eq_ok, requireAssignable_assignable] at h
      obtain ⟨_, ordered, _, _, h⟩ := h
      split at h
      · rename_i same
        subst same
        cases h
        exact .comparison (by simp) ordered
      · cases h
    | plus =>
      simp only [binaryType] at h
      split at h
      · rename_i text
        cases h
        rcases text with rfl | rfl
        · exact .joinLeft
        · exact .joinRight
      · obtain ⟨number, rfl, rfl⟩ := numericType_iff.1 h
        exact .arithmetic (by simp) number
    | minus | times | divide =>
      obtain ⟨number, rfl, rfl⟩ := numericType_iff.1 h
      exact .arithmetic (by simp) number
    | power =>
      simp only [binaryType, Except.bind_eq_ok, requireAssignable_assignable,
        assignable_integer] at h
      obtain ⟨_, rfl, _, rfl, h⟩ := h
      cases h
      exact .power
    | other => cases h
  · intro h
    cases h with
    | logic logical =>
      simp only [List.mem_cons, List.not_mem_nil, or_false] at logical
      rcases logical with rfl | rfl <;> rfl
    | comparison compares ordered =>
      simp only [List.mem_cons, List.not_mem_nil, or_false] at compares
      rcases compares with rfl | rfl | rfl | rfl
      all_goals
        simp only [binaryType, Except.bind_eq_ok, requireAssignable_assignable, ↓reduceIte]
        exact ⟨(), ordered, (), ordered, rfl⟩
    | joinLeft | joinRight => simp [binaryType]
    | arithmetic computes number =>
      simp only [List.mem_cons, List.not_mem_nil, or_false] at computes number
      rcases number with rfl | rfl
      all_goals rcases computes with rfl | rfl | rfl | rfl <;> rfl
    | power => rfl

theorem resolveType_ok {name : Json} {subject : Node Label} {t : Ty} :
    resolveType name subject = .ok t ↔ name = .string t.name := by
  constructor
  · intro h
    simp only [resolveType, Except.bind_eq_ok] at h
    obtain ⟨_, _, h⟩ := h
    split at h
    · rename_i u known
      cases h
      cases name with
      | string text =>
        have same : t.name = text := by simpa using List.find?_some known
        rw [same]
      | _ => cases known
    · cases h
  · rintro rfl
    cases t <;> rfl

theorem namesType_iff {name : Json} {subject : Node Label} {t : Option Ty} :
    resolveOptional name subject = .ok t ↔ NamesType name t := by
  unfold resolveOptional
  split
  · rename_i empty
    subst empty
    constructor
    · intro h
      cases h
      exact .leftOut
    · intro h
      cases h
      rfl
  · rename_i given
    simp only [Except.map_eq_ok, resolveType_ok]
    constructor
    · rintro ⟨t, rfl, rfl⟩
      exact .named t
    · intro h
      cases h with
      | leftOut => exact (given rfl).elim
      | named t => exact ⟨t, rfl, rfl⟩

theorem variableType_iff {declared found : Option Ty} {untyped : Cause} {subject : Node Label}
    {t : Ty} : declaredType declared found untyped subject = .ok t ↔
      VariableType declared found t := by
  constructor
  · intro h
    cases declared with
    | none =>
      cases found with
      | none => cases h
      | some u =>
        cases h
        exact .adopted _
    | some d =>
      cases found with
      | none =>
        cases h
        exact .declared _
      | some u =>
        simp only [declaredType, Except.bind_eq_ok, requireAssignable_assignable] at h
        obtain ⟨_, fits, h⟩ := h
        cases h
        exact .fitting fits
  · intro h
    cases h with
    | fitting fits =>
      simp only [declaredType, Except.bind_eq_ok, requireAssignable_assignable]
      exact ⟨(), fits, rfl⟩
    | _ => rfl

theorem checkMain_ok {label : Label} {name returnTypeName : Json} {parameters : List (Node Label)}
    {statements : Node Label} {isMain : Bool} :
    (Node.function label name (.list parameters) returnTypeName statements).checkMain =
        .ok isMain ↔
      (isMain = true ↔ name = .string "main" ∧ parameters = []) ∧
        (name = .string "main" ∧ parameters = [] →
          returnTypeName = .null ∨ returnTypeName = .string "Integer") := by
  have result : Ty.integer.name = "Integer" := rfl
  simp only [Node.checkMain, Except.bind_eq_ok, required_ok, Node.name?, Option.some.injEq,
    exists_eq_left', Node.isEmpty, result]
  by_cases main : name = .string "main" ∧ parameters = []
  · obtain ⟨rfl, rfl⟩ := main
    by_cases wrong : returnTypeName ≠ .null ∧ returnTypeName ≠ .string "Integer"
    · simp [wrong, throw, throwThe, MonadExceptOf.throw, Functor.map, Except.map]
    · have given : returnTypeName = .null ∨ returnTypeName = .string "Integer" :=
        Decidable.or_iff_not_not_and_not.2 wrong
      cases isMain <;> simp [wrong, given, pure, Except.pure]
  · by_cases named : name = .string "main"
    · have given : ¬ parameters = [] := fun empty => main ⟨named, empty⟩
      cases isMain <;> simp [named, given, pure, Except.pure]
    · cases isMain <;> simp [named, pure, Except.pure]

theorem isMain_iff {label : Label} {name returnTypeName r : Json} {parameters : List (Node Label)}
    {statements : Node Label} :
    (Node.function label name (.list parameters) returnTypeName statements).IsMain r ↔
      returnTypeName = r ∧ name = .string "main" ∧ parameters = [] := by
  constructor
  · intro h
    cases h
    exact ⟨rfl, rfl, rfl⟩
  · rintro ⟨rfl, rfl, rfl⟩
    exact .intro

/-- A function that is met as `main` can be what the program starts with, and returns what it
may. -/
theorem ElaboratesFunction.checkMain_ok {check : Nat} {Γ Γ' : Lexical} {f : Node Label}
    {e : Node Annotation} {isMain : Bool} (h : ElaboratesFunction check Γ f e Γ') :
    f.checkMain = .ok isMain ↔
      (isMain = true ↔ ∃ r, f.IsMain r) ∧
        ∀ r, f.IsMain r → r = .null ∨ r = .string "Integer" := by
  obtain ⟨_, _, _, _, _⟩ := h
  simp only [PlcLang.checkMain_ok, isMain_iff, exists_eq_left', and_imp, forall_eq']

end PlcLang
