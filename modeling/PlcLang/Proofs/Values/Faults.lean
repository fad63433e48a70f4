import PlcLang.Value.Operators
import PlcLang.Proofs.Except

/-! Faults of values: only operators have problems, at the node they are given. -/

namespace PlcLang

/-- The same fault; a problem is one at a node. -/
def Fault.at (subject : Option (Node Label)) : Fault → Fault
  | .problem p => .problem ⟨p.cause, subject⟩
  | f => f

namespace Lists

variable {lists : Lists} {a b v : Value} {f : Fault}

/-- A value has no text for its depth, for an integer that is too long, or for a character that
holds no text. -/
theorem text_faults {depth : Nat} (h : lists.text depth v = .error f) :
    f = .longInteger ∨ f = .unfit .notAText ∨ f = .tooDeep := by
  have simple {depth : Nat} {v : Value} (h : lists.text depth v = .error f)
      (plain : ∀ address, v ≠ .list address) :
      f = .longInteger ∨ f = .unfit .notAText ∨ f = .tooDeep := by
    cases v with
    | integer n =>
      cases depth <;>
      · simp only [text] at h
        split at h
        · cases h
        · exact .inl (Except.error.inj h).symm
    | character content =>
      cases depth <;> cases content <;> cases h <;> exact .inr (.inl rfl)
    | list address => exact (plain address rfl).elim
    | _ => cases depth <;> cases h
  induction depth generalizing v with
  | zero =>
    cases v with
    | list address => exact .inr (.inr (Except.error.inj h).symm)
    | _ => exact simple h fun _ same => by cases same
  | succ depth ih =>
    cases v with
    | list address =>
      simp only [text] at h
      rcases Except.bind_eq_error.1 h with inside | ⟨_, _, h⟩
      · obtain ⟨u, _, fails⟩ := Except.mapM_eq_error inside
        exact ih fails
      · cases h
    | _ => exact simple h fun _ same => by cases same

theorem allPairs_error {test : Value → Value → Except Fault Bool} {as bs : List Value}
    (h : allPairs test as bs = .error f) : ∃ a ∈ as, ∃ b ∈ bs, test a b = .error f := by
  induction as generalizing bs with
  | nil => cases h
  | cons a as ih =>
    cases bs with
    | nil => cases h
    | cons b bs =>
      rw [allPairs] at h
      rcases Except.bind_eq_error.1 h with first | ⟨same, -, h⟩
      · exact ⟨a, List.mem_cons_self, b, List.mem_cons_self, first⟩
      · cases same with
        | true =>
          obtain ⟨a', ha, b', hb, fails⟩ := ih h
          exact ⟨a', List.mem_cons_of_mem _ ha, b', List.mem_cons_of_mem _ hb, fails⟩
        | false => cases h

/-- Values cannot be compared for the depth of lists, or for a decimal in them. -/
theorem equal_faults {depth : Nat} (h : lists.equal depth a b = .error f) :
    f = .tooDeep ∨ ∃ signal, f = .decimal signal := by
  have simple {depth : Nat} {a b : Value} (h : lists.equal depth a b = .error f)
      (plain : ∀ address, a ≠ .list address) : f = .tooDeep ∨ ∃ signal, f = .decimal signal := by
    cases a with
    | decimal d =>
      cases b with
      | decimal d' =>
        cases depth <;>
        · simp only [equal] at h
          cases same : d.equal d' with
          | ok r =>
            rw [same] at h
            cases h
          | error signal =>
            rw [same] at h
            exact .inr ⟨signal, (Except.error.inj h).symm⟩
      | _ => cases depth <;> cases h
    | list address => exact (plain address rfl).elim
    | _ => cases b <;> cases depth <;> cases h
  induction depth generalizing a b with
  | zero =>
    cases a with
    | list address =>
      cases b <;> cases h
      exact .inl rfl
    | _ => exact simple h fun _ same => by cases same
  | succ depth ih =>
    cases a with
    | list first =>
      cases b with
      | list second =>
        simp only [equal] at h
        split at h
        · cases h
        · obtain ⟨a, _, b, _, fails⟩ := allPairs_error h
          exact ih fails
      | _ => cases h
    | _ => exact simple h fun _ same => by cases same

end Lists

section

variable {op : Operator} {a b : Value} (subject : Option (Node Label))

/-- Texts have no problems, -/
theorem Lists.text_at (lists : Lists) (depth : Nat) (v : Value) :
    (lists.text depth v).mapError (Fault.at subject) = lists.text depth v := by
  cases h : lists.text depth v with
  | ok t => rfl
  | error f => rcases Lists.text_faults h with rfl | rfl | rfl <;> rfl

/-- nor has equality. -/
theorem Lists.equal_at (lists : Lists) (depth : Nat) (a b : Value) :
    (lists.equal depth a b).mapError (Fault.at subject) = lists.equal depth a b := by
  cases h : lists.equal depth a b with
  | ok t => rfl
  | error f => rcases Lists.equal_faults h with rfl | ⟨_, rfl⟩ <;> rfl

theorem Fault.ofInteger_at (n : Int) (cause : Int → Cause) :
    (Fault.ofInteger n cause none).at subject = .ofInteger n cause subject := by
  unfold Fault.ofInteger
  split <;> rfl

theorem integerResult_at (m n : Int) :
    (integerResult op m n none).mapError (Fault.at subject) = integerResult op m n subject := by
  unfold integerResult
  split
  case h_4 => split <;> rfl
  all_goals rfl

theorem decimalResult_at (m n : Decimal) :
    (decimalResult op m n none).mapError (Fault.at subject) = decimalResult op m n subject := by
  have kept (x : Except Decimal.Signal Decimal) :
      ((x.map Value.decimal).mapError Fault.decimal).mapError (Fault.at subject) =
        (x.map Value.decimal).mapError Fault.decimal := by
    cases x <;> rfl
  unfold decimalResult
  split
  case h_4 =>
    split
    · rfl
    · exact kept _
  all_goals exact kept _

theorem arithmetic_at :
    (arithmetic op a b none).mapError (Fault.at subject) = arithmetic op a b subject := by
  unfold arithmetic
  split
  · exact integerResult_at ..
  · exact decimalResult_at ..
  · rfl

theorem ordered_at (wanted : Ordering) :
    (Value.ordered wanted a b none).mapError (Fault.at subject) =
      Value.ordered wanted a b subject := by
  cases a with
  | decimal d =>
    cases b with
    | decimal d' =>
      simp only [Value.ordered, Value.order]
      cases d.order d' <;> rfl
    | _ => rfl
  | character c =>
    cases b with
    | character c' =>
      simp only [Value.ordered, Value.order, characterOrder]
      cases c.order? c' <;> rfl
    | _ => rfl
  | _ => cases b <;> rfl

/-- Steps without problems make a computation without. -/
theorem mapError_bind_of {α β : Type} {x : Except Fault α} {k : α → Except Fault β}
    (hx : x.mapError (Fault.at subject) = x) (hk : ∀ a, (k a).mapError (Fault.at subject) = k a) :
    (x >>= k).mapError (Fault.at subject) = x >>= k := by
  cases x with
  | ok a => exact hk a
  | error f => exact congrArg Except.error (Except.error.inj hx)

/-- What an operator comes to depends on its values alone; its problems are at the node it is
given. -/
theorem Lists.apply_at (lists : Lists) (depth : Nat) (op : Operator) (a b : Value) :
    (lists.apply depth op a b none).mapError (Fault.at subject) =
      lists.apply depth op a b subject := by
  have equal (g : Bool → Value) :
      ((lists.equal depth a b).map g).mapError (Fault.at subject) =
        (lists.equal depth a b).map g :=
    mapError_bind_of subject (Lists.equal_at ..) fun _ => rfl
  cases op with
  | equal | unequal => exact equal _
  | less | greater => exact ordered_at subject _
  | plus =>
    simp only [Lists.apply]
    split
    · exact mapError_bind_of subject (Lists.text_at ..) fun _ =>
        mapError_bind_of subject (Lists.text_at ..) fun _ => rfl
    · exact arithmetic_at subject
  | minus | times | divide => exact arithmetic_at subject
  | power =>
    cases a with
    | integer base =>
      cases b with
      | integer exponent =>
        simp only [Lists.apply]
        split
        · exact congrArg Except.error (Fault.ofInteger_at ..)
        · rfl
      | _ => rfl
    | _ => cases b <;> rfl
  | and | or | other => rfl

end

end PlcLang
