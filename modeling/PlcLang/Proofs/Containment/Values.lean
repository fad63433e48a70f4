import PlcLang.Proofs.Parsing.Lexical
import PlcLang.Proofs.Values.Faults

/-! The values that program texts compute with, and what fails on them. -/

namespace PlcLang

/-- An operation gives a finite number, or is out of range or of space. -/
def Decimal.Contained : Except Decimal.Signal Decimal → Prop
  | .ok d => d.isFinite = true
  | .error signal => signal = .overflow ∨ signal = .outOfSpace

namespace Decimal

variable {ctx : Context} {a b : Decimal}

theorem contained_settle (negative : Bool) (c : Nat) (e : Int) :
    Contained (settle ctx negative c e) := by
  cases h : settle ctx negative c e with
  | ok d => exact isFinite_settle h
  | error signal =>
    rw [settle] at h
    split at h
    split at h
    · cases h
      exact .inl rfl
    · cases h

theorem contained_round (negative : Bool) (c : Nat) (e : Int) :
    Contained (round ctx negative c e) := by
  unfold round
  split
  · rfl
  · simp only
    split
    · exact contained_settle ..
    · exact contained_settle ..

theorem shiftUp_error {c places : Nat} {signal : Signal} (h : shiftUp c places = .error signal) :
    signal = .outOfSpace := by
  unfold shiftUp at h
  split at h
  · cases h
  · split at h
    · cases h
      rfl
    · cases h

theorem contained_add (ha : a.isFinite = true) (hb : b.isFinite = true) :
    Contained (a.add ctx b) := by
  cases a with
  | finite s c e =>
    cases b with
    | finite t d f =>
      change Contained (do
        let left ← shiftUp c (e - min e f).toNat
        let right ← shiftUp d (f - min e f).toNat
        round ctx (sumSign s t (signed s left + signed t right))
          (signed s left + signed t right).natAbs (min e f))
      cases left : shiftUp c (e - min e f).toNat with
      | error signal => exact .inr (shiftUp_error left)
      | ok left =>
        cases right : shiftUp d (f - min e f).toNat with
        | error signal => exact .inr (shiftUp_error right)
        | ok right => exact contained_round ..
    | _ => cases hb
  | _ => cases ha

theorem contained_sub (ha : a.isFinite = true) (hb : b.isFinite = true) :
    Contained (a.sub ctx b) := by
  cases a with
  | finite s c e =>
    cases b with
    | finite t d f => exact contained_add (a := .finite s c e) (b := .finite (!t) d f) rfl rfl
    | _ => cases hb
  | _ => cases ha

theorem contained_mul (ha : a.isFinite = true) (hb : b.isFinite = true) :
    Contained (a.mul ctx b) := by
  cases a with
  | finite s c e =>
    cases b with
    | finite t d f => exact contained_round ..
    | _ => cases hb
  | _ => cases ha

theorem contained_quotient (negative : Bool) (c : Nat) (e : Int) (d : Nat) (f : Int) :
    Contained (quotient ctx negative c e d f) := by
  unfold quotient
  simp only
  split
  · rfl
  · exact contained_settle ..

theorem contained_div (ha : a.isFinite = true) (hb : b.isFinite = true) (divisor : b.isZero = false) :
    Contained (a.div ctx b) := by
  cases a with
  | finite s c e =>
    cases b with
    | finite t d f =>
      have nonzero : d ≠ 0 := by
        rintro rfl
        cases divisor
      change Contained (if d = 0 then _ else if c = 0 then round ctx (s != t) 0 (e - f)
        else quotient ctx (s != t) c e d f)
      rw [if_neg nonzero]
      split
      · exact contained_round ..
      · exact contained_quotient ..
    | _ => cases hb
  | _ => cases ha

/-- Finite numbers stand in an order. -/
theorem order_finite (ha : a.isFinite = true) (hb : b.isFinite = true) : ∃ o, a.order b = .ok o := by
  cases a with
  | finite s c e =>
    cases b with
    | finite t d f => exact ⟨_, rfl⟩
    | _ => cases hb
  | _ => cases ha

theorem equal_finite (ha : a.isFinite = true) (hb : b.isFinite = true) :
    a.equal b = .ok (a.compare? b == some .eq) := by
  cases a with
  | finite s c e =>
    cases b with
    | finite t d f => rfl
    | _ => cases hb
  | _ => cases ha

end Decimal

/-- Decimals are finite, and characters hold a text. -/
def Value.Regular : Value → Prop
  | .decimal d => d.isFinite = true
  | .character content => ∃ text, content = .string text
  | _ => True

/-- Faults that the values of a program decide, or the slots of its tree: no broken rule of the
language, and no exhausted depth. -/
def Fault.IsRaw : Fault → Prop
  | .longInteger | .decimal _ => True
  | .unfit u => u = .notAList ∨ u = .notAText ∨ u = .unordered
  | _ => False

namespace Lists

/-- A value is a number, or a list with that number inside. -/
inductive Contains (lists : Lists) : Value → Int → Prop where
  | itself {k : Int} : Contains lists (.integer k) k
  | element {address : Nat} {v : Value} {k : Int} (mem : v ∈ lists.elements address)
      (inside : Contains lists v k) : Contains lists (.list address) k

variable {lists : Lists} {a b v : Value} {f : Fault}

/-- The text of a value fails for its depth, or for an integer in it that is too long. -/
theorem text_fails (each : ∀ address, ∀ v ∈ lists.elements address, v.Regular) (depth : Nat)
    (regular : v.Regular) (h : lists.text depth v = .error f) (raw : f.IsRaw) :
    f = .longInteger ∧ ∃ k, lists.Contains v k ∧ Integer.text? k = none := by
  have simple {depth : Nat} {v : Value} (regular : v.Regular) (h : lists.text depth v = .error f)
      (plain : ∀ address, v ≠ .list address) :
      f = .longInteger ∧ ∃ k, lists.Contains v k ∧ Integer.text? k = none := by
    cases v with
    | integer k =>
      cases depth <;>
      · simp only [text] at h
        split at h
        · cases h
        · rename_i long
          cases h
          exact ⟨rfl, k, .itself, long⟩
    | character content =>
      obtain ⟨t, rfl⟩ := regular
      cases depth <;> cases h
    | list address => exact (plain address rfl).elim
    | _ => cases depth <;> cases h
  induction depth generalizing v with
  | zero =>
    cases v with
    | list address =>
      cases h
      exact raw.elim
    | _ => exact simple regular h fun _ same => by cases same
  | succ depth ih =>
    cases v with
    | list address =>
      simp only [text] at h
      rcases Except.bind_eq_error.1 h with inside | ⟨_, _, h⟩
      · obtain ⟨u, mem, fails⟩ := Except.mapM_eq_error inside
        obtain ⟨long, k, contains, none⟩ := ih (each address u mem) fails
        exact ⟨long, k, .element mem contains, none⟩
      · cases h
    | _ => exact simple regular h fun _ same => by cases same

/-- Equality fails for the depth of lists only. -/
theorem equal_fails (each : ∀ address, ∀ v ∈ lists.elements address, v.Regular) (depth : Nat)
    (ha : a.Regular) (hb : b.Regular) (h : lists.equal depth a b = .error f) : f = .tooDeep := by
  have simple {depth : Nat} {a b : Value} (ha : a.Regular) (hb : b.Regular)
      (h : lists.equal depth a b = .error f) (plain : ∀ address, a ≠ .list address) :
      f = .tooDeep := by
    cases a with
    | decimal d =>
      cases b with
      | decimal d' =>
        cases depth <;>
        · rw [equal, Decimal.equal_finite ha hb] at h
          cases h
      | _ => cases depth <;> cases h
    | list address => exact (plain address rfl).elim
    | _ => cases b <;> cases depth <;> cases h
  induction depth generalizing a b with
  | zero =>
    cases a with
    | list address =>
      cases b <;> cases h
      rfl
    | _ => exact simple ha hb h fun _ same => by cases same
  | succ depth ih =>
    cases a with
    | list first =>
      cases b with
      | list second =>
        simp only [equal] at h
        split at h
        · cases h
        · obtain ⟨a, memA, b, memB, fails⟩ := allPairs_error h
          exact ih (each first a memA) (each second b memB) fails
      | _ => cases h
    | _ => exact simple ha hb h fun _ same => by cases same

end Lists

section

variable {op : Operator} {a b : Value} {subject : Option (Node Label)} {f : Fault}

theorem characterOrder_texts (s t : String) :
    ∃ o, characterOrder (.string s) (.string t) = .ok o := by
  rw [characterOrder, Json.order?]
  by_cases same : (Json.string s).same (.string t) = true
  · exact ⟨.eq, by rw [if_pos same]⟩
  · rw [if_neg same]
    cases before : (Json.string s).before? (.string t) with
    | none => cases before
    | some first =>
      cases after : (Json.string t).before? (.string s) with
      | none => cases after
      | some second => cases first <;> exact ⟨_, rfl⟩

/-- Values of one kind stand in an order. -/
theorem ordered_fails {wanted : Ordering} (ha : a.Regular) (hb : b.Regular)
    (h : Value.ordered wanted a b subject = .error f) : ¬ f.IsRaw := by
  unfold Value.ordered at h
  split at h
  · rename_i order known
    unfold Value.order at known
    split at known
    · cases known
      cases h
    · rename_i x y
      obtain ⟨o, finite⟩ := Decimal.order_finite ha hb
      rw [finite] at known
      cases known
      cases h
    · obtain ⟨s, rfl⟩ := ha
      obtain ⟨t, rfl⟩ := hb
      obtain ⟨o, texts⟩ := characterOrder_texts s t
      rw [texts] at known
      cases known
      cases h
    · cases known
      cases h
    · cases known
  · cases h
    exact id

theorem integerResult_fails {m n : Int} (h : integerResult op m n subject = .error f) :
    ¬ f.IsRaw := by
  unfold integerResult at h
  split at h
  · cases h
  · cases h
  · cases h
  · split at h
    · cases h
      exact id
    · cases h

/-- What a result of finite numbers is: a finite one, the problem that a divisor is zero, or a fault
of range or of space. -/
inductive Decimal.Result (subject : Option (Node Label)) : Except Fault Value → Prop where
  | finite {d : Decimal} (h : d.isFinite = true) : Result subject (.ok (.decimal d))
  | zero : Result subject (.error (.ofCause .divisionByZero subject))
  | out {signal : Decimal.Signal} (h : signal = .overflow ∨ signal = .outOfSpace) :
      Result subject (.error (.decimal signal))

theorem decimalResult_result {x y : Decimal} (hx : x.isFinite = true) (hy : y.isFinite = true) :
    Decimal.Result subject (decimalResult op x y subject) := by
  have kept {r : Except Decimal.Signal Decimal} (h : Decimal.Contained r) :
      Decimal.Result subject ((r.map Value.decimal).mapError Fault.decimal) := by
    cases r with
    | ok d => exact .finite h
    | error signal => exact .out h
  unfold decimalResult
  split
  · exact kept (Decimal.contained_add hx hy)
  · exact kept (Decimal.contained_sub hx hy)
  · exact kept (Decimal.contained_mul hx hy)
  · cases divisor : y.isZero with
    | true => exact .zero
    | false => exact kept (Decimal.contained_div hx hy divisor)

theorem regular_integerResult {m n : Int} {v : Value}
    (h : integerResult op m n subject = .ok v) : v.Regular := by
  unfold integerResult at h
  split at h
  · cases h
    trivial
  · cases h
    trivial
  · cases h
    trivial
  · split at h
    · cases h
    · cases h
      trivial

theorem regular_arithmetic {v : Value} (ha : a.Regular) (hb : b.Regular)
    (h : arithmetic op a b subject = .ok v) : v.Regular := by
  unfold arithmetic at h
  split at h
  · exact regular_integerResult h
  · have result : Decimal.Result subject (decimalResult op _ _ subject) :=
      decimalResult_result ha hb
    rw [h] at result
    cases result with
    | finite finite => exact finite
  · cases h

theorem regular_boolean {x : Except Fault Bool} {g : Bool → Bool} {v : Value}
    (h : x.map (fun b => Value.boolean (g b)) = .ok v) : v.Regular := by
  obtain ⟨b, -, rfl⟩ := Except.map_eq_ok.1 h
  trivial

theorem regular_ordered {wanted : Ordering} {v : Value}
    (h : Value.ordered wanted a b subject = .ok v) : v.Regular := by
  unfold Value.ordered at h
  split at h
  · obtain ⟨o, -, rfl⟩ := Except.map_eq_ok.1 h
    trivial
  · cases h

/-- Operators make such values of such values. -/
theorem Lists.regular_apply {lists : Lists} {depth : Nat} {v : Value} (ha : a.Regular)
    (hb : b.Regular) (h : lists.apply depth op a b subject = .ok v) : v.Regular := by
  cases op with
  | equal => exact regular_boolean (g := id) h
  | unequal => exact regular_boolean h
  | less | greater => exact regular_ordered h
  | minus | times | divide => exact regular_arithmetic ha hb h
  | plus =>
    simp only [apply] at h
    split at h
    · obtain ⟨left, -, h⟩ := Except.bind_eq_ok.1 h
      obtain ⟨right, -, h⟩ := Except.bind_eq_ok.1 h
      cases h
      trivial
    · exact regular_arithmetic ha hb h
  | power =>
    simp only [apply] at h
    split at h
    · split at h
      · cases h
      · cases h
        trivial
    · cases h
  | and | or | other => cases h

/-- What an operator needs the text of: integers in what is joined to a string, and a negative
exponent. -/
inductive Lists.Spells (lists : Lists) : Operator → Value → Value → Int → Prop where
  | left {a b : Value} {k : Int} (joined : a.tag = .string ∨ b.tag = .string)
      (inside : lists.Contains a k) : Spells lists .plus a b k
  | right {a b : Value} {k : Int} (joined : a.tag = .string ∨ b.tag = .string)
      (inside : lists.Contains b k) : Spells lists .plus a b k
  | exponent {base k : Int} (negative : k < 0) :
      Spells lists .power (.integer base) (.integer k) k

/-- A problem that shows an integer becomes a fault of its own where that is too long. -/
theorem Fault.ofInteger_raw {n : Int} {cause : Int → Cause}
    (h : Fault.ofInteger n cause subject = f) (raw : f.IsRaw) :
    f = .longInteger ∧ Integer.text? n = none := by
  unfold ofInteger at h
  cases short : Integer.text? n with
  | some t =>
    rw [short] at h
    cases h
    exact raw.elim
  | none =>
    rw [short] at h
    cases h
    exact ⟨rfl, rfl⟩

/-- How an operator fails other than by a rule of the language or by depth: it needs the text of an
integer that is too long, or its result is a decimal out of range or of space. -/
theorem Lists.apply_fails {lists : Lists} {depth : Nat}
    (each : ∀ address, ∀ v ∈ lists.elements address, v.Regular) (ha : a.Regular) (hb : b.Regular)
    (h : lists.apply depth op a b subject = .error f) (raw : f.IsRaw) :
    (f = .longInteger ∧ ∃ k, lists.Spells op a b k ∧ Integer.text? k = none) ∨
      ∃ x y, a = .decimal x ∧ b = .decimal y ∧ decimalResult op x y subject = .error f ∧
        (f = .decimal .overflow ∨ f = .decimal .outOfSpace) := by
  have computed (h : arithmetic op a b subject = .error f) :
      ∃ x y, a = .decimal x ∧ b = .decimal y ∧ decimalResult op x y subject = .error f ∧
        (f = .decimal .overflow ∨ f = .decimal .outOfSpace) := by
    unfold arithmetic at h
    split at h
    · exact (integerResult_fails h raw).elim
    · have result : Decimal.Result subject (decimalResult op _ _ subject) :=
        decimalResult_result ha hb
      rw [h] at result
      cases result with
      | zero => exact raw.elim
      | out out => exact ⟨_, _, rfl, rfl, h, out.imp (congrArg _) (congrArg _)⟩
    · cases h
      exact raw.elim
  cases op with
  | equal | unequal =>
    cases equal_fails each depth ha hb (Except.map_eq_error.1 h)
    exact raw.elim
  | less | greater => exact (ordered_fails ha hb h raw).elim
  | minus | times | divide => exact .inr (computed h)
  | plus =>
    simp only [apply] at h
    split at h
    · rename_i joined
      rcases Except.bind_eq_error.1 h with first | ⟨left, -, h⟩
      · obtain ⟨long, k, inside, none⟩ := text_fails each depth ha first raw
        exact .inl ⟨long, k, .left joined inside, none⟩
      · rcases Except.bind_eq_error.1 h with second | ⟨right, -, h⟩
        · obtain ⟨long, k, inside, none⟩ := text_fails each depth hb second raw
          exact .inl ⟨long, k, .right joined inside, none⟩
        · cases h
    · exact .inr (computed h)
  | power =>
    simp only [apply] at h
    split at h
    · split at h
      · rename_i negative
        obtain ⟨long, none⟩ := Fault.ofInteger_raw (Except.error.inj h) raw
        exact .inl ⟨long, _, .exponent negative, none⟩
      · cases h
    · cases h
      exact raw.elim
  | and | or | other =>
    cases h
    exact raw.elim

end

end PlcLang
