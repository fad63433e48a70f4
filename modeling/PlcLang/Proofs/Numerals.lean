import Mathlib
import PlcLang.Proofs.Decimal.Exact
import PlcLang.Proofs.Decimal.Rounded
import PlcLang.Proofs.Arithmetic
import PlcLang.Proofs.Parsing
import PlcLang.Proofs.Parsing.Limits

/-! Numerals: the numbers that they denote, and the literals that they are read as. -/

namespace PlcLang

open Decimal

/-! ### What numerals denote -/

/-- The number that digits denote, of which the last is a unit. -/
def wholeNumber (ds : List Char) : ℕ :=
  Nat.ofDigits 10 (ds.reverse.map fun c => c.toNat - '0'.toNat)

/-- The number that digits around a point denote. -/
def pointNumber (whole places : List Char) : ℚ :=
  wholeNumber whole + wholeNumber places / 10 ^ places.length

theorem wholeNumber_append (ds es : List Char) :
    wholeNumber (ds ++ es) = wholeNumber ds * 10 ^ es.length + wholeNumber es := by
  rw [wholeNumber, List.reverse_append, List.map_append, Nat.ofDigits_append, List.length_map,
    List.length_reverse, wholeNumber, wholeNumber]
  ring

/-- Digits are read as the number that they denote. -/
theorem digitsNumber_eq (ds : List Char) : digitsNumber ds = wholeNumber ds := by
  induction ds using List.reverseRecOn with
  | nil => rfl
  | append_singleton ds d ih =>
    have last : wholeNumber [d] = d.toNat - '0'.toNat := Nat.ofDigits_singleton ..
    rw [wholeNumber_append, ← ih, last, digitsNumber, List.foldl_concat]
    rfl

/-- A decimal has the value of its numeral. -/
theorem value_decimalNumber {whole places : List Char}
    (digits : ∀ c ∈ whole, isDigit c = true) :
    (decimalNumber (whole ++ '.' :: places)).value = pointNumber whole places := by
  have scale : (10 : ℚ) ^ places.length ≠ 0 := by positivity
  rw [decimalNumber_point digits, value_finite, digitsNumber_eq, wholeNumber_append, size, signOf,
    zpow_neg, zpow_natCast, pointNumber]
  push_cast
  field_simp

/-! ### Where they are read -/

/-- Wherever an operand may begin, the token is this literal. -/
def Token.IsLiteral (t : Token) (value : Literal) : Prop :=
  ∀ (c : Parser.Configuration) (place : Place) (goal : Parser.Goal) (nests : List Parser.Nest)
    (pending : Parser.Operands), Parser.Ready c place goal nests pending →
      t.fault? place = none ∧ c.shift t =
        some ({ c with spot := .expression goal nests pending (.complete (.literal value)) },
          .operand)

/-- Wherever an operand may begin, the token behind a minus sign is this literal. -/
def Token.IsNegative (t : Token) (value : Literal) : Prop :=
  ∀ (c : Parser.Configuration) (place : Place) (goal : Parser.Goal) (nests : List Parser.Nest)
    (pending : Parser.Operands) (minus : Token), Parser.Ready c place goal nests pending →
      minus.kind = .symbol .minus →
        t.fault? .sign = none ∧ ∃ c', c.shift minus = some (c', .sign) ∧ c'.shift t =
          some ({ c with spot := .expression goal nests pending (.complete (.literal value)) },
            .operand)

variable {t : Token} {whole places : List Char}

theorem Token.isLiteral {value : Literal} (start : t.kind ∈ Place.operandStart)
    (known : t.literal? = some value) (sound : ∀ place, place ≠ .sign → t.fault? place = none) :
    t.IsLiteral value :=
  fun _ _ _ _ _ ready => ⟨sound _ ready.unsigned, ready.shift_literal start known⟩

theorem Token.isNegative {value : Literal} (known : t.negative? = some value)
    (sound : t.fault? .sign = none) : t.IsNegative value :=
  fun c _ goal nests pending _ ready minus =>
    ⟨sound, _, ready.shift_minus minus, Parser.shift_negative c goal nests pending known⟩

/-- Behind a minus sign a token is one literal only. -/
theorem Token.IsNegative.unique {value other : Literal} (h : t.IsNegative value)
    (h' : t.IsNegative other) : value = other := by
  have ready := Parser.ready_wanted {} .result [] []
  obtain ⟨-, c, minus, read⟩ := h _ _ _ _ _ ⟨.symbol .minus, [], .origin⟩ ready rfl
  obtain ⟨-, c', minus', read'⟩ := h' _ _ _ _ _ ⟨.symbol .minus, [], .origin⟩ ready rfl
  rw [minus, Option.some.injEq, Prod.mk.injEq] at minus'
  rw [← minus'.1, read] at read'
  simpa using read'

/-- An integer that is not too long is read as the number it denotes, or its negative. -/
theorem Token.integer_read (kind : t.kind = .integer)
    (short : t.text.length ≤ Integer.digitLimit) :
    t.IsLiteral (.integer (wholeNumber t.text)) ∧
      t.IsNegative (.integer (-(wholeNumber t.text : ℤ))) := by
  have known : t.literal? = some (.integer (wholeNumber t.text)) := by
    rw [literal?, kind, ← digitsNumber_eq]
  have sound : ∀ place, t.fault? place = none := by
    intro place
    rw [fault?, kind]
    exact if_neg (Nat.not_lt.2 short)
  refine ⟨isLiteral (kind ▸ by decide) known fun place _ => sound place, ?_⟩
  exact isNegative (by rw [negative?, known]) (sound .sign)

/-- A token of digits around a point. -/
structure Token.IsPoint (t : Token) (whole places : List Char) : Prop where
  kind : t.kind = .decimal
  text : t.text = whole ++ '.' :: places
  digits : ∀ c ∈ whole ++ places, isDigit c = true
  /-- No more digits than the widest context holds. -/
  short : t.text.length ≤ 10 ^ 18

/-- The decimal of such a token. -/
theorem Token.IsPoint.parts (h : t.IsPoint whole places) :
    decimalNumber t.text = .finite false (wholeNumber (whole ++ places)) (-places.length) := by
  rw [h.text, decimalNumber_point fun c hc => h.digits c (List.mem_append_left _ hc),
    digitsNumber_eq]

theorem Token.IsPoint.value (h : t.IsPoint whole places) :
    (decimalNumber t.text).value = pointNumber whole places := by
  rw [h.text]
  exact value_decimalNumber fun c hc => h.digits c (List.mem_append_left _ hc)

theorem Token.IsPoint.range (h : t.IsPoint whole places) :
    (decimalNumber t.text).inRange = true := by
  have small := digitsNumber_lt h.digits
  have precision : Context.exact.precision = 10 ^ 18 - 1 := rfl
  have short := h.short
  rw [h.text, List.length_append, List.length_cons] at short
  rw [digitsNumber_eq, List.length_append] at small
  rw [h.parts]
  refine inRange_of_short (digitCount_le (by omega) (small.trans_le (tenTo_le_tenTo ?_))) ?_
  all_goals omega

theorem Token.IsPoint.literal (h : t.IsPoint whole places) :
    t.literal? = some (.decimal (decimalNumber t.text)) := by
  rw [literal?, h.kind]

theorem Token.IsPoint.kept (h : t.IsPoint whole places) :
    (decimalNumber t.text).kept = .ok (decimalNumber t.text) :=
  if_pos h.range

/-- A decimal is read as the number it denotes. -/
theorem Token.IsPoint.read (h : t.IsPoint whole places) :
    t.IsLiteral (.decimal (decimalNumber t.text)) := by
  refine isLiteral (h.kind ▸ by decide) h.literal fun place unsigned => ?_
  rw [fault?, h.kind]
  simp only [if_neg unsigned, h.kept]

/-- What the minus sign makes of a decimal is what it is read as behind the sign. -/
theorem Token.IsPoint.negated (h : t.IsPoint whole places) {d : Decimal}
    (made : (decimalNumber t.text).neg .sign = .ok d) : t.IsNegative (.decimal d) := by
  refine isNegative ?_ ?_
  · rw [negative?, h.literal]
    simp only [made]
    rfl
  · rw [fault?, h.kind]
    simp only [↓reduceIte, h.kept, Except.bind, made]

/-- Behind a minus sign it is read as nothing else, and not at all where the sign makes nothing of
it. -/
theorem Token.IsPoint.negative (h : t.IsPoint whole places) {d : Decimal} :
    t.IsNegative (.decimal d) ↔ (decimalNumber t.text).neg .sign = .ok d := by
  refine ⟨fun negative => ?_, h.negated⟩
  obtain ⟨sound, -⟩ := negative _ _ _ _ _ ⟨.symbol .minus, [], .origin⟩
    (Parser.ready_wanted {} .result [] []) rfl
  rw [fault?, h.kind] at sound
  simp only [↓reduceIte, h.kept, Except.bind] at sound
  cases made : (decimalNumber t.text).neg .sign with
  | error signal =>
    rw [made] at sound
    cases sound
  | ok d' =>
    have same := negative.unique (h.negated made)
    injection same with same
    rw [same]

/-! ### Minus signs -/

theorem Decimal.neg_of_zero (e : ℤ) : Gives ((Decimal.finite false 0 e).neg .sign) 0 :=
  gives_round_zero .sign false e

theorem Decimal.neg_of_nonzero {c : ℕ} (h : c ≠ 0) (e : ℤ) :
    (Decimal.finite false c e).neg .sign = round .sign true c e := by
  have sign : (!false && c != 0) = true := by simpa using h
  rw [neg, sign]

/-- A minus sign rounds to 28 digits. -/
theorem Decimal.neg_rounds {c : ℕ} {e : ℤ} (normal : size c e = 0 ∨ 10 ^ (-999999 : ℤ) ≤ size c e)
    (fits : ∃ x, IsRounding 28 (size c e) x ∧ x < 10 ^ 1000000) :
    ∃ d, (Decimal.finite false c e).neg .sign = .ok d ∧ IsRounding 28 (-size c e) d.value := by
  by_cases zero : c = 0
  · obtain ⟨d, given, -, value⟩ := neg_of_zero e
    refine ⟨d, zero ▸ given, ?_⟩
    rw [value, zero, size_zero, neg_zero]
    exact isRounding_self ⟨0, 0, by norm_num, by norm_num⟩
  · have positive := size_pos zero e
    have first := (le_leading zero).1 (normal.resolve_left positive.ne')
    obtain ⟨y, rounded, below⟩ := fits
    have bound : ∀ x, IsRounding 28 (size c e) x →
        x < 10 ^ (Context.sign.maxExponent + 1) := by
      intro x rounding
      rw [rounding.unique (by norm_num) rounded]
      exact below
    obtain ⟨c', e', given, -, rounding⟩ :=
      round_rounds true (show 2 ≤ Context.sign.precision by decide) zero first bound
    refine ⟨.finite true c' e', ?_, ?_⟩
    · rw [neg_of_nonzero zero, given]
    · rw [value_negative]
      exact rounding.neg

/-- It loses nothing just of the numbers that its context holds. -/
theorem Decimal.neg_exact_iff (c : ℕ) (e : ℤ) :
    (∃ d, (Decimal.finite false c e).neg .sign = .ok d ∧ d.value = -size c e) ↔
      Context.sign.Holds (size c e) := by
  by_cases zero : c = 0
  · obtain ⟨d, given, -, value⟩ := neg_of_zero e
    rw [zero, size_zero, neg_zero]
    exact ⟨fun _ => Context.holds_zero (by decide) (by decide), fun _ => ⟨d, given, value⟩⟩
  · rw [neg_of_nonzero zero]
    constructor
    · rintro ⟨d, given, value⟩
      have holds := holds_round (by decide) (by decide) given
      rw [value] at holds
      simpa using holds.neg
    · intro holds
      have negative := holds.neg
      rw [← value_negative] at negative ⊢
      obtain ⟨d, given, -, value⟩ := gives_round negative
      exact ⟨d, given, value⟩

/-- Subtracting from zero is exact. -/
theorem Token.IsPoint.subtracted (h : t.IsPoint whole places) (lists : Lists) (depth : ℕ)
    (subject : Option (Node Label)) :
    Yields (lists.apply depth .minus (.decimal (.finite false 0 (-1)))
      (.decimal (decimalNumber t.text)) subject) (-pointNumber whole places) := by
  have zero : (Decimal.finite false 0 (-1)).value = 0 := by rw [value_finite, size_zero, mul_zero]
  have range := h.range
  have value := h.value
  rw [h.parts] at range value ⊢
  have aligned : Aligned (.finite false 0 (-1))
      (.finite false (wholeNumber (whole ++ places)) (-places.length)) := by
    refine ⟨fun nonzero => absurd rfl nonzero, fun _ => ?_⟩
    rw [space]
    omega
  have holds := (holds_of_inRange range).neg
  rw [value] at holds
  have difference := gives_sub (a := .finite false 0 (-1)) rfl rfl aligned
    (by rwa [zero, value, zero_sub])
  rw [zero, value, zero_sub] at difference
  rw [apply_minus]
  exact difference.yields

/-- Every numeral is read as the number that it denotes, without a minus sign. Behind one, an
integer still is, but not every decimal, though its subtraction from zero is exact: the sign rounds
to 28 digits, and gives the exact negative just of a number that its context holds. -/
theorem numerals_read (t : Token) :
    (t.kind = .integer → t.text.length ≤ Integer.digitLimit →
      t.IsLiteral (.integer (wholeNumber t.text)) ∧
        t.IsNegative (.integer (-(wholeNumber t.text : ℤ)))) ∧
    ∀ whole places : List Char, t.IsPoint whole places →
      (∃ d, t.IsLiteral (.decimal d) ∧ d.value = pointNumber whole places ∧
        ∀ (lists : Lists) (depth : ℕ) (subject : Option (Node Label)),
          Yields (lists.apply depth .minus (.decimal (.finite false 0 (-1))) (.decimal d) subject)
            (-pointNumber whole places)) ∧
      ((∃ d, t.IsNegative (.decimal d) ∧ d.value = -pointNumber whole places) ↔
        Context.sign.Holds (pointNumber whole places)) ∧
      (pointNumber whole places = 0 ∨ 10 ^ (-999999 : ℤ) ≤ pointNumber whole places →
        (∃ x, IsRounding 28 (pointNumber whole places) x ∧ x < 10 ^ 1000000) →
          ∃ d, t.IsNegative (.decimal d) ∧ IsRounding 28 (-pointNumber whole places) d.value) := by
  refine ⟨fun kind short => t.integer_read kind short, fun whole places point => ?_⟩
  have size_eq : size (wholeNumber (whole ++ places)) (-places.length) =
      pointNumber whole places := by
    rw [← point.value, point.parts, value_finite, signOf, if_neg Bool.false_ne_true, one_mul]
  refine ⟨⟨decimalNumber t.text, point.read, point.value, point.subtracted⟩, ?_, ?_⟩
  · simp only [point.negative, point.parts, ← size_eq]
    exact neg_exact_iff ..
  · simp only [point.negative, point.parts, ← size_eq]
    exact neg_rounds

/-- A numeral of each kind. -/
theorem numerals_read_few :
    (Token.mk .integer ['4', '2'] .origin).IsLiteral (.integer 42) ∧
      (Token.mk .integer ['4', '2'] .origin).IsNegative (.integer (-42)) ∧
      (∃ d, (Token.mk .decimal ['2', '.', '5'] .origin).IsLiteral (.decimal d) ∧
        d.value = 5 / 2) ∧
      (∃ d, (Token.mk .decimal ['2', '.', '5'] .origin).IsNegative (.decimal d) ∧
        d.value = -(5 / 2)) ∧
      ∃ d, (Token.mk .decimal ['2', '.', '5'] .origin).IsNegative (.decimal d) ∧
        IsRounding 28 (-(5 / 2)) d.value := by
  have number : wholeNumber ['4', '2'] = 42 := by decide
  have half : pointNumber ['2'] ['5'] = 5 / 2 := by
    have two : wholeNumber ['2'] = 2 := by decide
    have five : wholeNumber ['5'] = 5 := by decide
    rw [pointNumber, two, five]
    norm_num
  have point : (Token.mk .decimal ['2', '.', '5'] .origin).IsPoint ['2'] ['5'] :=
    ⟨rfl, rfl, List.all_eq_true.1 rfl, by decide⟩
  have holds : Context.sign.Holds (5 / 2) :=
    ⟨false, 25, -1, by norm_num [value, signOf, size], by decide, by decide, by decide⟩
  have short : Short 28 (5 / 2) := ⟨25, -1, by norm_num, by norm_num⟩
  have small : (10 : ℚ) ^ (-999999 : ℤ) ≤ 10 ^ (0 : ℤ) :=
    zpow_le_zpow_right₀ (by norm_num) (by norm_num)
  have large : (10 : ℚ) ^ 1 ≤ 10 ^ 1000000 := pow_le_pow_right₀ (by norm_num) (by norm_num)
  have below : (5 / 2 : ℚ) < 10 ^ 1 := by norm_num
  obtain ⟨integers, -⟩ := numerals_read ⟨.integer, ['4', '2'], .origin⟩
  obtain ⟨plain, negative⟩ := integers rfl (by decide)
  obtain ⟨-, decimals⟩ := numerals_read ⟨.decimal, ['2', '.', '5'], .origin⟩
  obtain ⟨⟨d, read, exact, -⟩, negated, rounded⟩ := decimals _ _ point
  rw [number] at plain negative
  rw [half] at exact negated rounded
  exact ⟨plain, negative, ⟨d, read, exact⟩, negated.2 holds,
    rounded (.inr (small.trans (by norm_num))) ⟨5 / 2, isRounding_self short, below.trans_le large⟩⟩

/-- Of 30 digits behind a minus sign the last two are lost. -/
theorem numerals_read_rounds :
    (Program.constant (.decimal (.finite true 100000000000000000000000000001 (-29)))).render =
        "VAL x : Decimal = - 1.00000000000000000000000000001 ;" ∧
      Program.parse "VAL x : Decimal = - 1.00000000000000000000000000001 ;" =
        .ok (Program.constant (.decimal (.finite true 1000000000000000000000000000 (-27)))) ∧
      (Decimal.finite true 1000000000000000000000000000 (-27)).value ≠
        -pointNumber ['1'] "00000000000000000000000000001".toList := by
  have text : (Program.constant (.decimal (.finite true 100000000000000000000000000001
      (-29)))).render = "VAL x : Decimal = - 1.00000000000000000000000000001 ;" := by
    decide +kernel
  refine ⟨text, ?_, ?_⟩
  · rw [← text]
    have negated : (Decimal.finite false 100000000000000000000000000001 (-(29 : Nat))).neg .sign =
        .ok (.finite true 1000000000000000000000000000 (-27)) := by decide
    exact parse_constant (by decide) (by decide) negated
  · have one : wholeNumber ['1'] = 1 := by decide
    have unit : wholeNumber "00000000000000000000000000001".toList = 1 := by decide
    have length : "00000000000000000000000000001".toList.length = 29 := by decide
    rw [pointNumber, one, unit, length]
    norm_num [value, signOf, size]

end PlcLang
