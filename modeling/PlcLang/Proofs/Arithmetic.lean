import Mathlib
import PlcLang.Proofs.Decimal.Exact
import PlcLang.Proofs.Decimal.Rounded
import PlcLang.Value.Operators

/-! Operators on numbers. On integers all of them are exact; on decimals sums, differences and
products are, and quotients are rounded once to 34 digits. -/

namespace PlcLang

open Decimal

/-- A finite decimal of a given value. -/
def Yields (result : Except Fault Value) (x : ℚ) : Prop :=
  ∃ r : Decimal, result = .ok (.decimal r) ∧ r.isFinite = true ∧ r.value = x

/-- An error of one class. -/
def Raises (result : Except Fault Value) (kind : ErrorClass) : Prop :=
  ∃ p, result = .error (.problem p) ∧ p.cause.errorClass = kind

theorem not_raises_ok {v : Value} {kind : ErrorClass} : ¬ Raises (.ok v) kind := by
  rintro ⟨p, raised, -⟩
  cases raised

/-! ### Quotients and powers of integers -/

namespace Integer

/-- A quotient that leaves a remainder smaller than the divisor, which is zero or has the sign of
the dividend. -/
def IsQuotient (a b q : ℤ) : Prop :=
  ∃ r, a = q * b + r ∧ |r| < |b| ∧ (r = 0 ∨ r.sign = a.sign)

theorem divide_eq_tdiv : ∀ a b : ℤ, divide a b = a.tdiv b
  | .ofNat m, .ofNat n => by
    have nonneg : (0 : ℤ) ≤ m ∧ (0 : ℤ) ≤ n := ⟨m.cast_nonneg, n.cast_nonneg⟩
    simp [divide, Int.tdiv, nonneg.1.not_gt, nonneg.2.not_gt]
  | .ofNat m, .negSucc n => by
    simp [divide, Int.tdiv]
  | .negSucc m, .ofNat n => by
    simp [divide, Int.tdiv]
  | .negSucc m, .negSucc n => by
    simp [divide, Int.tdiv]

variable {a b p q r : ℤ}

/-- A remainder is on the dividend's side of zero. -/
theorem sided (sign : r = 0 ∨ r.sign = a.sign) : (0 ≤ a → 0 ≤ r) ∧ (a ≤ 0 → r ≤ 0) := by
  rcases sign with rfl | same
  · exact ⟨fun _ => le_rfl, fun _ => le_rfl⟩
  · rw [← Int.sign_nonneg_iff, ← same, Int.sign_nonneg_iff, ← Int.sign_nonpos_iff, ← same,
      Int.sign_nonpos_iff]
    exact ⟨id, id⟩

theorem isQuotient_tdiv (nonzero : b ≠ 0) : IsQuotient a b (a.tdiv b) := by
  refine ⟨a.tmod b, (Int.tdiv_mul_add_tmod a b).symm, ?_, ?_⟩
  · rw [Int.abs_eq_natAbs, Int.abs_eq_natAbs, Int.natAbs_tmod]
    exact_mod_cast Nat.mod_lt _ (Int.natAbs_pos.2 nonzero)
  · by_cases divides : b ∣ a
    · exact .inl (Int.tmod_eq_zero_of_dvd divides)
    · right
      rw [Int.sign_tmod, if_neg divides]

/-- Two such remainders are on one side of zero, so they differ by less than the divisor. -/
theorem IsQuotient.unique (hp : IsQuotient a b p) (hq : IsQuotient a b q) : p = q := by
  obtain ⟨r, left, hr, sign⟩ := hp
  obtain ⟨s, right, hs, sign'⟩ := hq
  have close : |r - s| < |b| := by
    obtain ⟨up, down⟩ := sided sign
    obtain ⟨up', down'⟩ := sided sign'
    rw [abs_lt] at hr hs ⊢
    rcases le_total 0 a with side | side
    · have := up side
      have := up' side
      constructor <;> linarith
    · have := down side
      have := down' side
      constructor <;> linarith
  have multiple : b * (q - p) = r - s := by linarith
  have none : r - s = 0 := Int.eq_zero_of_abs_lt_dvd ((abs_dvd b _).2 ⟨_, multiple.symm⟩) close
  have nonzero : b ≠ 0 := abs_pos.1 ((abs_nonneg r).trans_lt hr)
  have same : q - p = 0 := (mul_eq_zero.1 (multiple.trans none)).resolve_left nonzero
  exact (sub_eq_zero.1 same).symm

theorem isQuotient_iff (nonzero : b ≠ 0) : IsQuotient a b q ↔ q = divide a b := by
  rw [divide_eq_tdiv]
  constructor
  · intro quotient
    exact quotient.unique (isQuotient_tdiv nonzero)
  · rintro rfl
    exact isQuotient_tdiv nonzero

theorem powerFrom_zero (result base : ℤ) : powerFrom result base 0 = result := by
  rw [powerFrom, dif_pos rfl]

/-- What the loop for powers holds between its rounds. -/
structure Squaring where
  result : ℤ
  base : ℤ
  exponent : ℕ

namespace Squaring

def start (base : ℤ) (exponent : ℕ) : Squaring :=
  ⟨1, base, exponent⟩

/-- One round: where the exponent is odd the result takes a factor, the base is squared, and the
exponent is halved. -/
def round (s : Squaring) : Squaring :=
  ⟨if s.exponent % 2 = 1 then s.result * s.base else s.result, s.base * s.base, s.exponent / 2⟩

/-- The loop has just so many rounds: there is an exponent left before each, and none after. -/
def Lasts (s : Squaring) (rounds : ℕ) : Prop :=
  (∀ k < rounds, 0 < (round^[k] s).exponent) ∧ (round^[rounds] s).exponent = 0

/-- The result together with the power that is left to do. -/
def total (s : Squaring) : ℤ :=
  s.result * s.base ^ s.exponent

theorem round_total (s : Squaring) : s.round.total = s.total := by
  have squared : s.base ^ s.exponent =
      (s.base * s.base) ^ (s.exponent / 2) * s.base ^ (s.exponent % 2) := by
    rw [← sq, ← pow_mul, ← pow_add, Nat.div_add_mod]
  rw [total, total, squared]
  rcases Nat.mod_two_eq_zero_or_one s.exponent with even | odd
  · simp [round, even]
  · simp only [round, odd, if_true, pow_one]
    ring

theorem iterate_total (s : Squaring) (k : ℕ) : (round^[k] s).total = s.total := by
  induction k with
  | zero => rfl
  | succ k ih => rw [Function.iterate_succ_apply', round_total, ih]

theorem iterate_exponent (s : Squaring) (k : ℕ) : (round^[k] s).exponent = s.exponent / 2 ^ k := by
  induction k with
  | zero => rw [pow_zero, Nat.div_one, Function.iterate_zero_apply]
  | succ k ih =>
    rw [Function.iterate_succ_apply', pow_succ, ← Nat.div_div_eq_div_mul, ← ih]
    rfl

/-- There are as many rounds as the exponent has binary digits. -/
theorem lasts_size (s : Squaring) : s.Lasts s.exponent.size := by
  constructor
  · intro k less
    rw [iterate_exponent]
    exact Nat.div_pos (Nat.lt_size.1 less) (Nat.two_pow_pos k)
  · rw [iterate_exponent]
    exact Nat.div_eq_of_lt (Nat.size_le.1 le_rfl)

variable {s : Squaring} {rounds : ℕ}

/-- No power is left to do after the last round. -/
theorem Lasts.result_eq (h : s.Lasts rounds) : (round^[rounds] s).result = s.total := by
  rw [← iterate_total s rounds, total, h.2, pow_zero, mul_one]

/-- A round does not change what the loop comes to; without an exponent there is nothing to do. -/
theorem powerFrom_round (s : Squaring) :
    powerFrom s.round.result s.round.base s.round.exponent =
      powerFrom s.result s.base s.exponent := by
  obtain ⟨r, b, e⟩ := s
  cases e with
  | zero => simp [round, powerFrom_zero]
  | succ e => rw [powerFrom.eq_def r, dif_neg e.succ_ne_zero, round]

theorem powerFrom_iterate (s : Squaring) (k : ℕ) :
    powerFrom (round^[k] s).result (round^[k] s).base (round^[k] s).exponent =
      powerFrom s.result s.base s.exponent := by
  induction k with
  | zero => rfl
  | succ k ih => rw [Function.iterate_succ_apply', powerFrom_round, ih]

theorem Lasts.powerFrom_eq (h : s.Lasts rounds) :
    powerFrom s.result s.base s.exponent = (round^[rounds] s).result := by
  rw [← powerFrom_iterate s rounds, h.2, powerFrom_zero]

end Squaring

theorem abs_lt_ten_pow_iff (n : ℤ) (k : ℕ) : |n| < 10 ^ k ↔ n.natAbs < tenTo k := by
  rw [Int.abs_eq_natAbs]
  exact_mod_cast Iff.rfl

/-- An integer has a text if its digits are not too many. -/
theorem text?_isSome_iff (n : ℤ) : (text? n).isSome = true ↔ |n| < 10 ^ digitLimit := by
  have limit : 0 < digitLimit := by decide
  rw [abs_lt_ten_pow_iff, ← digitCount_le_iff limit, text?]
  split <;> simp_all

end Integer

/-! ### Operators on integers -/

/-- The operators that compute with numbers. -/
def Operator.arithmetic : List Operator :=
  [.plus, .minus, .times, .divide, .power]

/-- What is left of a division, as programs write it: `a - (a / b) * b`. -/
def Lists.remainder (lists : Lists) (depth : ℕ) (a b : Value) (subject : Option (Node Label)) :
    Except Fault Value := do
  let q ← lists.apply depth .divide a b subject
  let multiple ← lists.apply depth .times q b subject
  lists.apply depth .minus a multiple subject

section Integers

variable {lists : Lists} {depth : ℕ} {subject : Option (Node Label)} {a b : ℤ}

theorem apply_divide_integer :
    lists.apply depth .divide (.integer a) (.integer b) subject =
      if b = 0 then .error (.ofCause .divisionByZero subject)
      else .ok (.integer (Integer.divide a b)) :=
  rfl

theorem apply_power_integer :
    lists.apply depth .power (.integer a) (.integer b) subject =
      if b < 0 then .error (.ofInteger b .negativeExponent subject)
      else .ok (.integer (Integer.power a b)) :=
  rfl

theorem remainder_integer (nonzero : b ≠ 0) :
    lists.remainder depth (.integer a) (.integer b) subject = .ok (.integer (a.tmod b)) := by
  rw [Lists.remainder, apply_divide_integer, if_neg nonzero, Integer.divide_eq_tdiv, Int.tmod_def,
    mul_comm]
  rfl

theorem negative_exponent_fails (negative : b < 0) :
    lists.apply depth .power (.integer a) (.integer b) subject =
      .error (if |b| < 10 ^ Integer.digitLimit then .ofCause (.negativeExponent b) subject
        else .longInteger) := by
  rw [apply_power_integer, if_pos negative, Fault.ofInteger]
  simp only [Integer.text?_isSome_iff]

theorem boolean_refused {op : Operator} (counts : op ∈ Operator.arithmetic) (t : Bool) {v : Value}
    (apart : ¬ (op = .plus ∧ v.tag = .string)) :
    lists.apply depth op (.boolean t) v subject =
        .error (.ofCause (.unsupportedOperands op .boolean v.tag) subject) ∧
      lists.apply depth op v (.boolean t) subject =
        .error (.ofCause (.unsupportedOperands op v.tag .boolean) subject) := by
  have second : ∀ op', arithmetic op' v (.boolean t) subject =
      .error (.ofCause (.unsupportedOperands op' v.tag .boolean) subject) := by
    intro op'
    cases v <;> rfl
  simp only [Operator.arithmetic, List.mem_cons, List.not_mem_nil, or_false] at counts
  rcases counts with rfl | rfl | rfl | rfl | rfl
  · have none : v.tag ≠ .string := fun text => apart ⟨rfl, text⟩
    have no_text : Tag.boolean ≠ .string := by decide
    constructor
    · exact if_neg (not_or.2 ⟨no_text, none⟩)
    · exact (if_neg (not_or.2 ⟨none, no_text⟩)).trans (second _)
  · exact ⟨rfl, second _⟩
  · exact ⟨rfl, second _⟩
  · exact ⟨rfl, second _⟩
  · refine ⟨rfl, ?_⟩
    cases v <;> rfl

theorem boolean_joined (t : Bool) (text : String) :
    lists.apply depth .plus (.boolean t) (.string text) subject =
        .ok (.string ((if t then "true" else "false") ++ text)) ∧
      lists.apply depth .plus (.string text) (.boolean t) subject =
        .ok (.string (text ++ if t then "true" else "false")) := by
  constructor
  · rw [Lists.apply, if_pos (.inr rfl), Lists.text, Lists.text]
    rfl
  · rw [Lists.apply, if_pos (.inl rfl), Lists.text, Lists.text]
    rfl

theorem raises_invalid_iff {op : Operator} (counts : op ∈ Operator.arithmetic) :
    Raises (lists.apply depth op (.integer a) (.integer b) subject) .invalidArithmetic ↔
      op = .divide ∧ b = 0 ∨ op = .power ∧ b < 0 ∧ |b| < 10 ^ Integer.digitLimit := by
  simp only [Operator.arithmetic, List.mem_cons, List.not_mem_nil, or_false] at counts
  rcases counts with rfl | rfl | rfl | rfl | rfl
  · exact iff_of_false not_raises_ok (by simp)
  · exact iff_of_false not_raises_ok (by simp)
  · exact iff_of_false not_raises_ok (by simp)
  · by_cases zero : b = 0
    · rw [apply_divide_integer, if_pos zero]
      exact iff_of_true ⟨_, rfl, rfl⟩ (.inl ⟨rfl, zero⟩)
    · rw [apply_divide_integer, if_neg zero]
      exact iff_of_false not_raises_ok (by simp [zero])
  · by_cases negative : b < 0
    · rw [negative_exponent_fails negative]
      by_cases short : |b| < 10 ^ Integer.digitLimit
      · rw [if_pos short]
        exact iff_of_true ⟨_, rfl, rfl⟩ (.inr ⟨rfl, negative, short⟩)
      · rw [if_neg short]
        refine iff_of_false ?_ (by simp [short])
        rintro ⟨p, raised, -⟩
        cases raised
    · rw [apply_power_integer, if_neg negative]
      exact iff_of_false not_raises_ok (by simp [negative])

end Integers

/-- For all integers, of every size: sums, differences and products are exact. A quotient by a number
other than zero is the one that leaves a remainder smaller than the divisor, which is zero or has the
sign of the dividend; this is the remainder that programs compute with it. A power with a whole
exponent is exact, and is what the loop of squarings holds when it has ended. Only a division by zero
and a negative exponent are errors of the program, as long as the exponent has a text to be shown. A
Boolean is no integer to any of the five operators: it has a text to be joined to a string, and all
else is refused. -/
theorem integer_operators (lists : Lists) (depth : ℕ) (subject : Option (Node Label)) (a b : ℤ) :
    lists.apply depth .plus (.integer a) (.integer b) subject = .ok (.integer (a + b)) ∧
    lists.apply depth .minus (.integer a) (.integer b) subject = .ok (.integer (a - b)) ∧
    lists.apply depth .times (.integer a) (.integer b) subject = .ok (.integer (a * b)) ∧
    (b ≠ 0 →
      (∃ q, lists.apply depth .divide (.integer a) (.integer b) subject = .ok (.integer q) ∧
        ∀ p, Integer.IsQuotient a b p ↔ p = q) ∧
      lists.remainder depth (.integer a) (.integer b) subject = .ok (.integer (a.tmod b))) ∧
    (0 ≤ b → (Integer.Squaring.start a b.toNat).Lasts b.toNat.size ∧
      lists.apply depth .power (.integer a) (.integer b) subject =
        .ok (.integer (Integer.Squaring.round^[b.toNat.size] (.start a b.toNat)).result) ∧
      (Integer.Squaring.round^[b.toNat.size] (.start a b.toNat)).result = a ^ b.toNat) ∧
    (∀ op ∈ Operator.arithmetic,
      (Raises (lists.apply depth op (.integer a) (.integer b) subject) .invalidArithmetic ↔
        op = .divide ∧ b = 0 ∨ op = .power ∧ b < 0 ∧ |b| < 10 ^ Integer.digitLimit)) ∧
    (b < 0 → 10 ^ Integer.digitLimit ≤ |b| →
      lists.apply depth .power (.integer a) (.integer b) subject = .error .longInteger) ∧
    (∀ op ∈ Operator.arithmetic, ∀ t v, ¬ (op = .plus ∧ v.tag = .string) →
      lists.apply depth op (.boolean t) v subject =
          .error (.ofCause (.unsupportedOperands op .boolean v.tag) subject) ∧
        lists.apply depth op v (.boolean t) subject =
          .error (.ofCause (.unsupportedOperands op v.tag .boolean) subject)) ∧
    (∀ t text,
      lists.apply depth .plus (.boolean t) (.string text) subject =
          .ok (.string ((if t then "true" else "false") ++ text)) ∧
        lists.apply depth .plus (.string text) (.boolean t) subject =
          .ok (.string (text ++ if t then "true" else "false"))) := by
  refine ⟨rfl, rfl, rfl, ?_, ?_, fun op counts => raises_invalid_iff counts, ?_,
    fun op counts t v apart => boolean_refused counts t apart, boolean_joined⟩
  · intro nonzero
    refine ⟨⟨Integer.divide a b, ?_, fun p => Integer.isQuotient_iff nonzero⟩,
      remainder_integer nonzero⟩
    rw [apply_divide_integer, if_neg nonzero]
  · intro whole
    have lasts : (Integer.Squaring.start a b.toNat).Lasts b.toNat.size :=
      Integer.Squaring.lasts_size _
    refine ⟨lasts, ?_, ?_⟩
    · rw [apply_power_integer, if_neg whole.not_gt, ← lasts.powerFrom_eq]
      rfl
    · rw [lasts.result_eq]
      exact one_mul _
  · intro negative long
    rw [negative_exponent_fails negative, if_neg long.not_gt]

/-- Minus seven, divided by two, by zero and squared; an exponent that has no text; and one that is a
Boolean. -/
theorem integer_operators_seven :
    ((∃ q, Lists.apply #[] 0 .divide (.integer (-7)) (.integer 2) none = .ok (.integer q) ∧
        ∀ p, Integer.IsQuotient (-7) 2 p ↔ p = q) ∧
      Lists.remainder #[] 0 (.integer (-7)) (.integer 2) none = .ok (.integer (-1))) ∧
    Lists.apply #[] 0 .power (.integer (-7)) (.integer 2) none = .ok (.integer 49) ∧
    Raises (Lists.apply #[] 0 .divide (.integer (-7)) (.integer 0) none) .invalidArithmetic ∧
    Lists.apply #[] 0 .power (.integer (-7)) (.integer (-10 ^ Integer.digitLimit)) none =
      .error .longInteger ∧
    Lists.apply #[] 0 .power (.integer (-7)) (.boolean true) none =
      .error (.ofCause (.unsupportedOperands .power .integer .boolean) none) := by
  obtain ⟨-, -, -, divides, powers, -, -, refused, -⟩ := integer_operators #[] 0 none (-7) 2
  obtain ⟨-, -, -, -, -, raises, -⟩ := integer_operators #[] 0 none (-7) 0
  obtain ⟨-, -, -, -, -, -, long, -⟩ :=
    integer_operators #[] 0 none (-7) (-10 ^ Integer.digitLimit)
  obtain ⟨-, power, square⟩ := powers (by decide)
  have large : (0 : ℤ) < 10 ^ Integer.digitLimit := pow_pos (by decide) _
  refine ⟨divides (by decide), ?_, ?_, long (neg_neg_of_pos large) ?_, ?_⟩
  · rw [power, square]
    rfl
  · exact (raises .divide (by decide)).2 (.inl ⟨rfl, rfl⟩)
  · rw [abs_neg, abs_of_pos large]
  · exact (refused .power (by decide) true (.integer (-7)) (by decide)).2

/-- A negative exponent that has no text is not reported as one. -/
theorem integer_operators_vast :
    (-10 ^ Integer.digitLimit : ℤ) < 0 ∧
      ¬ Raises (Lists.apply #[] 0 .power (.integer 2) (.integer (-10 ^ Integer.digitLimit)) none)
        .invalidArithmetic := by
  have large : (0 : ℤ) < 10 ^ Integer.digitLimit := pow_pos (by decide) _
  refine ⟨neg_neg_of_pos large, fun raises => ?_⟩
  rcases (raises_invalid_iff (by decide)).1 raises with ⟨divided, -⟩ | ⟨-, -, short⟩
  · cases divided
  · rw [abs_neg, abs_of_pos large] at short
    exact short.false

variable {lists : Lists} {depth : ℕ} {subject : Option (Node Label)} {a b : Decimal} {x : ℚ}

/-! ### Operators on decimals -/

theorem apply_minus :
    lists.apply depth .minus (.decimal a) (.decimal b) subject =
      ((a.sub .exact b).map .decimal).mapError .decimal :=
  rfl

theorem Decimal.Gives.yields {result : Except Signal Decimal} (h : Gives result x) :
    Yields ((result.map .decimal).mapError .decimal) x := by
  obtain ⟨r, rfl, finite, value⟩ := h
  exact ⟨r, rfl, finite, value⟩

/-! ### Quotients of decimals -/

end PlcLang
