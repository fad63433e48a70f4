import PlcLang.Proofs.Checking.Scope
import PlcLang.Proofs.Values.Admitted

namespace PlcLang

variable {D : Demands} {l r t : Ty} {left right node : Node Label} {op : Operator}

/-- A literal is of the type that the checker finds for it. -/
theorem admits_literal {value : Literal} (h : value.check node = .ok t) :
    t.admits value.value.tag = true := by
  cases value <;> simp only [Literal.check] at h
  case foreign => contradiction
  all_goals try split at h
  all_goals first | contradiction | (cases h; rfl)

theorem binaryType_logic (ho : op = .and ∨ op = .or)
    (h : binaryType op left right node l r = .ok t) :
    l = .boolean ∧ r = .boolean ∧ t = .boolean := by
  rcases ho with rfl | rfl
  all_goals
    simp only [binaryType, bind, Except.bind] at h
    split at h
    · contradiction
    · rename_i hl
      split at h
      · contradiction
      · rename_i hr
        cases h
        have hl := requireAssignable_ok.1 hl
        have hr := requireAssignable_ok.1 hr
        exact ⟨by cases l <;> first | rfl | contradiction,
          by cases r <;> first | rfl | contradiction, rfl⟩

theorem binaryType_compared (ho : op = .less ∨ op = .greater ∨ op = .equal ∨ op = .unequal)
    (h : binaryType op left right node l r = .ok t) :
    Ty.comparable.accepts l = true ∧ l = r ∧ t = .boolean := by
  rcases ho with rfl | rfl | rfl | rfl
  all_goals
    simp only [binaryType, bind, Except.bind] at h
    split at h
    · contradiction
    · rename_i hl
      split at h
      · contradiction
      · split at h
        · rename_i same
          cases h
          exact ⟨requireAssignable_ok.1 hl, same, rfl⟩
        · contradiction

theorem numericType_ok (h : numericType op left right l r = .ok t) :
    (l = .integer ∨ l = .decimal) ∧ r = l ∧ t = l := by
  unfold numericType at h
  split at h
  · rename_i hl
    simp only [bind, Except.bind] at h
    split at h
    · contradiction
    · rename_i hr
      cases h
      have hr := requireAssignable_ok.1 hr
      refine ⟨hl, ?_, rfl⟩
      rcases hl with rfl | rfl <;> cases r <;> first | rfl | contradiction
  · contradiction

theorem binaryType_power (h : binaryType .power left right node l r = .ok t) :
    l = .integer ∧ r = .integer ∧ t = .integer := by
  simp only [binaryType, bind, Except.bind] at h
  split at h
  · contradiction
  · rename_i hl
    split at h
    · contradiction
    · rename_i hr
      cases h
      have hl := requireAssignable_ok.1 hl
      have hr := requireAssignable_ok.1 hr
      exact ⟨by cases l <;> first | rfl | contradiction,
        by cases r <;> first | rfl | contradiction, rfl⟩

theorem integerResult_meets {a b : Int} {subject : Option (Node Label)} :
    Meets D .integer (integerResult op a b subject) := by
  unfold integerResult
  split <;> first | exact fun _ => rfl | skip
  split
  · trivial
  · exact fun _ => rfl

theorem decimalResult_meets {a b : Decimal} {subject : Option (Node Label)} :
    Meets D .decimal (decimalResult op a b subject) := by
  have kept (x : Except Decimal.Signal Decimal) :
      Meets D .decimal ((x.map Value.decimal).mapError Fault.decimal) := by
    cases x with
    | error s => trivial
    | ok d => exact fun _ => rfl
  unfold decimalResult
  split
  · exact kept _
  · exact kept _
  · exact kept _
  · split
    · trivial
    · exact kept _

/-- Two values of one number type have a result of that type; without types there is a result of
some kind, or a fault. -/
theorem arithmetic_meets {a b : Value} {subject : Option (Node Label)}
    (hl : l = .integer ∨ l = .decimal) (ha : D.typed → l.admits a.tag = true)
    (hb : D.typed → l.admits b.tag = true) : Meets D l (arithmetic op a b subject) := by
  by_cases d : D.typed
  · rcases hl with rfl | rfl
    · obtain ⟨m, rfl⟩ := integer_of_admits (ha d)
      obtain ⟨n, rfl⟩ := integer_of_admits (hb d)
      exact integerResult_meets
    · obtain ⟨m, rfl⟩ := decimal_of_admits (ha d)
      obtain ⟨n, rfl⟩ := decimal_of_admits (hb d)
      exact decimalResult_meets
  · unfold arithmetic
    split
    · exact integerResult_meets.of_untyped d
    · exact decimalResult_meets.of_untyped d
    · exact d

/-- Two texts are joined to one. -/
theorem joined_meets {lists : Lists} {depth : Nat} {a b : Value} :
    Meets D .string (do
      let left ← lists.text depth a
      let right ← lists.text depth b
      return .string (left ++ right)) := by
  have join (first second : Except Fault String) (hf : Tolerable D first)
      (hs : Tolerable D second) :
      Meets D .string (do return .string ((← first) ++ (← second))) := by
    cases first with
    | error f => exact hf f rfl
    | ok x =>
      cases second with
      | error f => exact hs f rfl
      | ok y => exact fun _ => rfl
  exact join _ _ (lists.text_tolerable depth a) (lists.text_tolerable depth b)

theorem plus_meets {lists : Lists} {depth : Nat} {a b : Value} {subject : Option (Node Label)}
    (fits : binaryType .plus left right node l r = .ok t) (ha : D.typed → l.admits a.tag = true)
    (hb : D.typed → r.admits b.tag = true) : Meets D t (lists.apply depth .plus a b subject) := by
  by_cases d : D.typed
  · have ha := ha d
    have hb := hb d
    simp only [binaryType] at fits
    split at fits
    · rename_i named
      cases fits
      have texts : a.tag = .string ∨ b.tag = .string := by
        rcases named with rfl | rfl
        · exact Or.inl (beq_iff_eq.1 ha)
        · exact Or.inr (beq_iff_eq.1 hb)
      simp only [Lists.apply, if_pos texts]
      exact joined_meets
    · obtain ⟨hl, rfl, rfl⟩ := numericType_ok fits
      have numbers : ¬ (a.tag = .string ∨ b.tag = .string) := by
        rintro (he | he)
        · rw [he] at ha
          rcases hl with rfl | rfl <;> contradiction
        · rw [he] at hb
          rcases hl with rfl | rfl <;> contradiction
      simp only [Lists.apply, if_neg numbers]
      exact arithmetic_meets hl (fun _ => ha) fun _ => hb
  · simp only [Lists.apply]
    split
    · exact joined_meets.of_untyped d
    · exact (arithmetic_meets (Or.inl rfl) (fun typed => (d typed).elim)
        fun typed => (d typed).elim).of_untyped d

theorem ordered_meets {wanted : Ordering} {a b : Value} {subject : Option (Node Label)}
    (h : D.typed → (a.order b).isSome = true) :
    Meets D .boolean (Value.ordered wanted a b subject) := by
  unfold Value.ordered
  cases ho : a.order b with
  | none =>
    intro d
    have some := h d
    rw [ho] at some
    contradiction
  | some x =>
    cases x with
    | error f => exact order_tolerable ho f rfl
    | ok o => exact fun _ => rfl

/-- An operator that the checker accepts for two types turns values of them into one of the type it
finds. -/
theorem apply_meets {lists : Lists} {depth : Nat} {a b : Value} {subject : Option (Node Label)}
    (fits : binaryType op left right node l r = .ok t)
    (ordered : D.typed → op = .less ∨ op = .greater → l ≠ .comparable)
    (strict : op ≠ .and ∧ op ≠ .or) (ha : D.typed → l.admits a.tag = true)
    (hb : D.typed → r.admits b.tag = true) : Meets D t (lists.apply depth op a b subject) := by
  have compared {wanted : Ordering} (ho : op = .less ∨ op = .greater) :
      Meets D t (Value.ordered wanted a b subject) := by
    obtain ⟨hc, rfl, rfl⟩ := binaryType_compared (by grind) fits
    exact ordered_meets fun d => order_isSome hc (ordered d ho) (ha d) (hb d)
  have numeric (hn : numericType op left right l r = .ok t) :
      Meets D t (arithmetic op a b subject) := by
    obtain ⟨hl, rfl, rfl⟩ := numericType_ok hn
    exact arithmetic_meets hl ha hb
  cases op with
  | and => exact (strict.1 rfl).elim
  | or => exact (strict.2 rfl).elim
  | less => exact compared (Or.inl rfl)
  | greater => exact compared (Or.inr rfl)
  | equal =>
    obtain ⟨_, _, rfl⟩ := binaryType_compared (by simp) fits
    refine (Lists.equal_tolerable lists depth a b).map.meets fun v hv _ => ?_
    cases he : lists.equal depth a b with
    | error f => simp [he, Except.map] at hv
    | ok same =>
      simp only [he, Except.map, Except.ok.injEq] at hv
      rw [← hv]
      rfl
  | unequal =>
    obtain ⟨_, _, rfl⟩ := binaryType_compared (by simp) fits
    refine (Lists.equal_tolerable lists depth a b).map.meets fun v hv _ => ?_
    cases he : lists.equal depth a b with
    | error f => simp [he, Except.map] at hv
    | ok same =>
      simp only [he, Except.map, Except.ok.injEq] at hv
      rw [← hv]
      rfl
  | plus => exact plus_meets fits ha hb
  | minus | times | divide => exact numeric fits
  | power =>
    obtain ⟨rfl, rfl, rfl⟩ := binaryType_power fits
    by_cases d : D.typed
    · obtain ⟨m, rfl⟩ := integer_of_admits (ha d)
      obtain ⟨n, rfl⟩ := integer_of_admits (hb d)
      simp only [Lists.apply]
      split
      · exact Fault.tolerated_ofInteger trivial
      · exact fun _ => rfl
    · simp only [Lists.apply]
      split
      · split
        · exact Fault.tolerated_ofInteger trivial
        · exact fun _ => rfl
      · exact d
  | other given => cases fits

end PlcLang
