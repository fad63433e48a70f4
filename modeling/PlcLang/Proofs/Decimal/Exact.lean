import Mathlib
import PlcLang.Proofs.Decimal.Value

/-! Sums, differences and products: no digit of them is lost. -/

namespace PlcLang.Decimal

/-- A number that a context holds in some form: of no more digits than it keeps, and with no
exponent out of its range. -/
def Context.Holds (ctx : Context) (x : ℚ) : Prop :=
  ∃ s c e, (Decimal.finite s c e).value = x ∧ digitCount c ≤ ctx.precision ∧ ctx.tiny ≤ e ∧
    top c e ≤ ctx.maxExponent

/-- No coefficient but zero has to be extended beyond the space for one, to be written with the
exponent of the other number. -/
def Aligned : Decimal → Decimal → Prop
  | .finite _ c e, .finite _ d f => (c ≠ 0 → e ≤ f + space) ∧ (d ≠ 0 → f ≤ e + space)
  | _, _ => True

/-- A finite number of a given value. -/
def Gives (result : Except Signal Decimal) (x : ℚ) : Prop :=
  ∃ r, result = .ok r ∧ r.isFinite = true ∧ r.value = x

variable {s t : Bool} {c d : ℕ} {e f : ℤ} {a b : Decimal}

theorem exists_of_isFinite (h : a.isFinite = true) : ∃ s c e, a = .finite s c e := by
  cases a with
  | finite s c e => exact ⟨s, c, e, rfl⟩
  | infinite s => cases h
  | nan s signaling payload => cases h

theorem nanResult?_finite (ctx : Context) (s t : Bool) (c d : ℕ) (e f : ℤ) :
    nanResult? ctx (.finite s c e) (.finite t d f) = none :=
  rfl

/-! ### Signs -/

theorem abs_signOf (s : Bool) : |signOf s| = 1 := by
  cases s <;> simp [signOf]

theorem signOf_not (s : Bool) : signOf (!s) = -signOf s := by
  cases s <;> simp [signOf]

theorem cast_signed (s : Bool) (n : ℕ) : (signed s n : ℚ) = signOf s * n := by
  cases s <;> simp [signed, signOf]

theorem signOf_sumSign (s t : Bool) (n : ℤ) : signOf (sumSign s t n) * n.natAbs = n := by
  rw [sumSign, Nat.cast_natAbs, Int.cast_abs]
  split
  · rename_i zero
    simp [zero]
  · by_cases below : n < 0
    · have negative : (n : ℚ) < 0 := by exact_mod_cast below
      simp [below, signOf, abs_of_neg negative]
    · have positive : (0 : ℚ) ≤ n := by exact_mod_cast Int.not_lt.1 below
      simp [below, signOf, abs_of_nonneg positive]

theorem value_finite (s : Bool) (c : ℕ) (e : ℤ) :
    (Decimal.finite s c e).value = signOf s * size c e :=
  rfl

theorem value_opposite (b : Decimal) : b.opposite.value = -b.value := by
  cases b with
  | finite t d f => rw [opposite, value_finite, value_finite, signOf_not, neg_mul]
  | infinite t => simp [opposite, value]
  | nan t signaling payload => simp [opposite, value]

theorem size_nonneg (c : ℕ) (e : ℤ) : 0 ≤ size c e :=
  mul_nonneg (Nat.cast_nonneg c) (ten_zpow_pos e).le

theorem abs_value (s : Bool) (c : ℕ) (e : ℤ) : |(Decimal.finite s c e).value| = size c e := by
  rw [value_finite, abs_mul, abs_signOf, one_mul, abs_of_nonneg (size_nonneg c e)]

theorem gives_round_zero (ctx : Context) (s : Bool) (e : ℤ) : Gives (round ctx s 0 e) 0 :=
  ⟨.finite s 0 _, rfl, rfl, by rw [value_finite, size_zero, mul_zero]⟩

/-! ### Contexts -/

theorem Context.Holds.neg {ctx : Context} {x : ℚ} (h : ctx.Holds x) : ctx.Holds (-x) := by
  obtain ⟨s, c, e, rfl, fits⟩ := h
  exact ⟨!s, c, e, value_opposite (.finite s c e), fits⟩

theorem Context.holds_zero {ctx : Context} (one : 1 ≤ ctx.precision)
    (wide : ctx.tiny ≤ ctx.maxExponent) : ctx.Holds 0 := by
  have digits : digitCount 0 = 1 := by decide
  refine ⟨false, 0, ctx.tiny, ?_, by omega, le_rfl, wide⟩
  rw [value_finite, size_zero, mul_zero]

/-- The widest context holds what is in range. -/
theorem holds_of_inRange (h : (Decimal.finite s c e).inRange = true) :
    Context.exact.Holds (Decimal.finite s c e).value :=
  ⟨s, c, e, rfl, inRange_finite.1 h⟩

/-- What a context holds is not rounded. -/
theorem gives_round {ctx : Context} (holds : ctx.Holds (Decimal.finite s c e).value) :
    Gives (round ctx s c e) (Decimal.finite s c e).value := by
  obtain ⟨t, d, f, same, short, low, high⟩ := holds
  have sizes : size c e = size d f := by rw [← abs_value s, ← abs_value t, same]
  obtain ⟨c', e', rounded, kept, -⟩ := round_exact s sizes short low high
  exact ⟨_, rounded, rfl, by rw [value_finite, value_finite, kept]⟩

/-- A settled number has lost a digit if it had too many. -/
theorem holds_settle {ctx : Context} {r : Decimal} (one : 1 ≤ ctx.precision)
    (wide : ctx.tiny ≤ ctx.maxExponent) (few : digitCount c ≤ ctx.precision + 1)
    (low : ctx.tiny ≤ e) (h : settle ctx s c e = .ok r) : ctx.Holds r.value := by
  by_cases zero : r.value = 0
  · rw [zero]
    exact Context.holds_zero one wide
  obtain ⟨long, rfl, bounded⟩ | ⟨short, rfl, bounded⟩ := settle_eq_ok h
  · have nonzero : c / 10 ≠ 0 := fun none => zero (by rw [value_finite, none, size_zero, mul_zero])
    refine ⟨s, c / 10, e + 1, rfl, digitCount_le one ?_, by omega, ?_⟩
    · have digits : tenTo (ctx.precision + 1) = tenTo ctx.precision * 10 := tenTo_add _ 1
      have bound := lt_tenTo_of_digitCount_le few
      omega
    · rw [top, if_neg nonzero]
      exact bounded nonzero
  · have nonzero : c ≠ 0 := fun none => zero (by rw [value_finite, none, size_zero, mul_zero])
    refine ⟨s, c, e, rfl, short, low, ?_⟩
    rw [top, if_neg nonzero]
    exact bounded nonzero

/-- Whatever is rounded, the context holds what comes of it. -/
theorem holds_round {ctx : Context} {r : Decimal} (one : 1 ≤ ctx.precision)
    (wide : ctx.tiny ≤ ctx.maxExponent) (h : round ctx s c e = .ok r) : ctx.Holds r.value := by
  rw [round] at h
  split at h
  · cases h
    rw [value_finite, size_zero, mul_zero]
    exact Context.holds_zero one wide
  · have place : leading c e = e + digitCount c - 1 := rfl
    simp only at h
    generalize last_eq : max ctx.tiny (leading c e - ctx.precision + 1) = last at h
    split at h
    · have few := digitCount_dropDigits c (last - e).toNat
      exact holds_settle one wide (by omega) (by omega) h
    · exact holds_settle one wide (by omega) (by omega) h

/-! ### Operators -/

theorem shiftUp_ok (h : c ≠ 0 → e - f ≤ space) :
    shiftUp c (e - f).toNat = .ok (c * tenTo (e - f).toNat) := by
  rw [shiftUp]
  split
  · rename_i zero
    rw [zero, Nat.zero_mul]
  · rename_i nonzero
    have fits := h nonzero
    rw [if_neg (by omega)]

/-- The sum of two numbers is written with the lower of their exponents. -/
theorem value_add (s t : Bool) (c d : ℕ) (e f : ℤ) :
    let sum := signed s (c * tenTo (e - min e f).toNat) + signed t (d * tenTo (f - min e f).toNat)
    (Decimal.finite (sumSign s t sum) sum.natAbs (min e f)).value =
      (Decimal.finite s c e).value + (Decimal.finite t d f).value := by
  intro sum
  have left := size_lower c (min_le_left e f)
  have right := size_lower d (min_le_right e f)
  rw [value_finite, value_finite, value_finite, ← left, ← right, size, size, size, ← mul_assoc,
    signOf_sumSign, Int.cast_add, cast_signed, cast_signed]
  ring

theorem gives_add (finite : a.isFinite = true) (finite' : b.isFinite = true)
    (aligned : Aligned a b) (holds : Context.exact.Holds (a.value + b.value)) :
    Gives (add .exact a b) (a.value + b.value) := by
  obtain ⟨s, c, e, rfl⟩ := exists_of_isFinite finite
  obtain ⟨t, d, f, rfl⟩ := exists_of_isFinite finite'
  obtain ⟨left, right⟩ := aligned
  have first : shiftUp c (e - min e f).toNat = .ok (c * tenTo (e - min e f).toNat) := by
    refine shiftUp_ok fun nonzero => ?_
    have := left nonzero
    omega
  have second : shiftUp d (f - min e f).toNat = .ok (d * tenTo (f - min e f).toNat) := by
    refine shiftUp_ok fun nonzero => ?_
    have := right nonzero
    omega
  rw [← value_add s t c d e f] at holds ⊢
  simp only [add, nanResult?_finite, first, second, bind, Except.bind]
  exact gives_round holds

theorem aligned_opposite (h : Aligned a b) : Aligned a b.opposite := by
  cases a <;> cases b <;> exact h

theorem isFinite_opposite (b : Decimal) : b.opposite.isFinite = b.isFinite := by
  cases b <;> rfl

theorem gives_sub (finite : a.isFinite = true) (finite' : b.isFinite = true)
    (aligned : Aligned a b) (holds : Context.exact.Holds (a.value - b.value)) :
    Gives (sub .exact a b) (a.value - b.value) := by
  have whole : sub .exact a b = add .exact a b.opposite := by
    obtain ⟨s, c, e, rfl⟩ := exists_of_isFinite finite
    obtain ⟨t, d, f, rfl⟩ := exists_of_isFinite finite'
    rfl
  rw [sub_eq_add_neg, ← value_opposite] at holds ⊢
  rw [whole]
  exact gives_add finite (by rwa [isFinite_opposite]) (aligned_opposite aligned) holds

end PlcLang.Decimal
