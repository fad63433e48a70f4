import Mathlib
import PlcLang.Proofs.Decimal.Value

/-! Numbers rounded to so many digits. Between two powers of ten that are neighbours the numbers of
so many digits lie on a grid of equal steps, and there the nearest of them is a nearest integer. -/

namespace PlcLang.Decimal

/-- A number of at most so many significant digits. -/
def Short (digits : ℕ) (x : ℚ) : Prop :=
  ∃ n e : ℤ, |n| < 10 ^ digits ∧ x = n * 10 ^ e

/-- A number rounded to so many digits: no other number of so few digits is nearer, and if one is
as near, the last of all the digits is even. -/
structure IsRounding (digits : ℕ) (q x : ℚ) : Prop where
  short : Short digits x
  nearest : ∀ y, Short digits y → |q - x| ≤ |q - y|
  even : ∀ y, Short digits y → y ≠ x → |q - y| = |q - x| →
    ∃ n e : ℤ, x = n * 10 ^ e ∧ 10 ^ (digits - 1) ≤ |n| ∧ |n| < 10 ^ digits ∧ Even n

variable {digits : ℕ} {q x y t : ℚ} {k j e : ℤ}

/-! ### Short numbers -/

theorem Short.neg (h : Short digits x) : Short digits (-x) := by
  obtain ⟨n, e, bound, rfl⟩ := h
  exact ⟨-n, e, by rwa [abs_neg], by push_cast; ring⟩

/-- A number of few digits is short, whatever its sign. -/
theorem short_of_digitCount {c : ℕ} (h : digitCount c ≤ digits) (e : ℤ) :
    Short digits (size c e) := by
  refine ⟨c, e, ?_, by simp [size]⟩
  have bound : c < 10 ^ digits := lt_tenTo_of_digitCount_le h
  rw [Nat.abs_cast]
  exact_mod_cast bound

/-- A short number lies on the grid of a step, or is below the numbers whose last digit is a
step. -/
theorem Short.grid (h : Short digits y) (e : ℤ) :
    (∃ j : ℤ, y = j * 10 ^ e) ∨ |y| < 10 ^ (digits - 1) * 10 ^ e := by
  obtain ⟨n, f, bound, rfl⟩ := h
  by_cases high : e ≤ f
  · left
    refine ⟨n * 10 ^ (f - e).toNat, ?_⟩
    rw [ten_zpow_shift (e := e) (n := (f - e).toNat) (by omega)]
    push_cast
    ring
  · right
    have size : (|n| : ℚ) < 10 ^ digits := by exact_mod_cast bound
    have below : (10 : ℚ) ^ f ≤ 10 ^ (e - 1) := zpow_le_zpow_right₀ (by norm_num) (by omega)
    have digit : (10 : ℚ) ^ digits ≤ 10 ^ (digits - 1) * 10 := by
      rw [← pow_succ]
      exact pow_le_pow_right₀ (by norm_num) (by omega)
    calc |(n : ℚ) * 10 ^ f| = |(n : ℚ)| * 10 ^ f := by
          rw [abs_mul, abs_of_pos (ten_zpow_pos f)]
      _ < 10 ^ digits * 10 ^ f := mul_lt_mul_of_pos_right size (ten_zpow_pos f)
      _ ≤ 10 ^ (digits - 1) * 10 * 10 ^ (e - 1) :=
          mul_le_mul digit below (ten_zpow_pos f).le (by positivity)
      _ = 10 ^ (digits - 1) * 10 ^ e := by
          rw [zpow_sub_one₀ (by norm_num)]
          ring

/-! ### Nearest integers -/

/-- A number cannot be near to two integers. -/
theorem one_le_distances (t : ℚ) (h : j ≠ k) : 1 ≤ |t - j| + |t - k| := by
  have apart : (1 : ℚ) ≤ |(j : ℚ) - k| := by exact_mod_cast Int.one_le_abs (sub_ne_zero.2 h)
  have through := abs_sub_le (j : ℚ) t k
  rw [abs_sub_comm (j : ℚ) t] at through
  exact apart.trans through

theorem nearest_of_half (half : |t - k| ≤ 1 / 2) (j : ℤ) : |t - k| ≤ |t - j| := by
  by_cases same : j = k
  · rw [same]
  · have := one_le_distances t same
    linarith

theorem le_of_half (half : |t - k| ≤ 1 / 2) (high : t < 10 ^ digits) : k ≤ 10 ^ digits := by
  have near := (abs_le.1 half).1
  have below : (k : ℚ) < ((10 ^ digits + 1 : ℤ) : ℚ) := by
    push_cast
    linarith
  have := Int.cast_lt.1 below
  omega

theorem ge_of_half (half : |t - k| ≤ 1 / 2) (low : 10 ^ digits ≤ t) : 10 ^ digits ≤ k := by
  have near := (abs_le.1 half).2
  have above : ((10 ^ digits : ℤ) : ℚ) < (k + 1 : ℤ) := by
    push_cast
    linarith
  have := Int.cast_lt.1 above
  omega

theorem half_of_tie (half : |t - k| ≤ 1 / 2) (other : j ≠ k) (tie : |t - j| = |t - k|) :
    |t - k| = 1 / 2 := by
  have := one_le_distances t other
  linarith

/-- Rounding a quotient leaves at most half the divisor, and exactly half only from an even
integer. -/
theorem nearest_rest (num : ℕ) {den : ℕ} (positive : 0 < den) :
    (2 * (num - nearest num den * den) : ℤ).natAbs ≤ den ∧
      ((2 * (num - nearest num den * den) : ℤ).natAbs = den → nearest num den % 2 = 0) := by
  have parts := Nat.div_add_mod num den
  have rest := Nat.mod_lt num positive
  simp only [nearest]
  generalize num / den = q at parts ⊢
  generalize num % den = r at parts rest ⊢
  have whole : (num : ℤ) - q * den = r := by
    rw [← parts]
    push_cast
    ring
  have next : (num : ℤ) - (q + 1 : ℕ) * den = r - den := by
    rw [← whole]
    push_cast
    ring
  split
  · rw [whole]
    omega
  · split
    · rw [next]
      omega
    · obtain even | odd := Nat.mod_two_eq_zero_or_one q
      · rw [even, add_zero, whole]
        omega
      · rw [odd, next]
        omega

/-- The integer that a quotient is rounded to is at most half a unit away, and the even one of two
that are. -/
theorem nearest_half (num : ℕ) {den : ℕ} (positive : 0 < den) :
    |(num : ℚ) / den - nearest num den| ≤ 1 / 2 ∧
      (|(num : ℚ) / den - nearest num den| = 1 / 2 → Even (nearest num den)) := by
  have scale : (0 : ℚ) < 2 * den := by
    have : (0 : ℚ) < den := by exact_mod_cast positive
    linarith
  obtain ⟨bound, even⟩ := nearest_rest num positive
  have rest : |(num : ℚ) / den - nearest num den| =
      ((2 * (num - nearest num den * den) : ℤ).natAbs : ℚ) / (2 * den) := by
    rw [Nat.cast_natAbs, eq_div_iff scale.ne', ← abs_of_pos scale, ← abs_mul, Int.cast_abs]
    congr 1
    push_cast
    field_simp
  rw [rest, div_le_div_iff₀ scale two_pos, div_eq_div_iff scale.ne' two_ne_zero]
  constructor
  · have : ((2 * (num - nearest num den * den) : ℤ).natAbs : ℚ) ≤ den := by exact_mod_cast bound
    linarith
  · intro tie
    refine Nat.even_iff.2 (even ?_)
    have : ((2 * (num - nearest num den * den) : ℤ).natAbs : ℚ) = den := by linarith
    exact_mod_cast this

/-! ### Rounding -/

theorem abs_scaled (a b : ℚ) (e : ℤ) : |a * 10 ^ e - b * 10 ^ e| = |a - b| * 10 ^ e := by
  rw [← sub_mul, abs_mul, abs_of_pos (ten_zpow_pos e)]

/-- An integer of so many digits, or the power of ten after them, on any grid: what it loses by that
power is a zero at the end. -/
theorem exists_form (two : 2 ≤ digits) (bound : |k| ≤ 10 ^ digits) (e : ℤ) :
    ∃ n f : ℤ, (k * 10 ^ e : ℚ) = n * 10 ^ f ∧ |n| < 10 ^ digits ∧
      (10 ^ (digits - 1) ≤ |k| → 10 ^ (digits - 1) ≤ |n|) ∧ (Even k → Even n) := by
  by_cases below : |k| < 10 ^ digits
  · exact ⟨k, e, rfl, below, id, id⟩
  · have digit : (10 : ℤ) ^ digits = 10 ^ (digits - 1) * 10 := by
      rw [← pow_succ, Nat.sub_add_cancel (by omega)]
    have full : |k| = 10 ^ (digits - 1) * 10 := by
      rw [← digit]
      exact le_antisymm bound (Int.not_lt.1 below)
    obtain ⟨n, rfl⟩ : 10 ∣ k := by
      rw [← dvd_abs, full]
      exact dvd_mul_left ..
    have tenth : |n| = 10 ^ (digits - 1) := by
      have ten : |(10 : ℤ)| = 10 := rfl
      rw [abs_mul, ten] at full
      omega
    have positive : (0 : ℤ) < 10 ^ (digits - 1) := by positivity
    refine ⟨n, e + 1, ?_, by omega, fun _ => tenth.ge, fun _ => ?_⟩
    · rw [zpow_add_one₀ (by norm_num)]
      push_cast
      ring
    · rw [← even_abs, tenth]
      exact (show Even (10 : ℤ) by decide).pow_of_ne_zero (by omega)

theorem short_of_le (two : 2 ≤ digits) (bound : |k| ≤ 10 ^ digits) (e : ℤ) :
    Short digits (k * 10 ^ e) := by
  obtain ⟨n, f, form, few, -⟩ := exists_form two bound e
  exact ⟨n, f, few, form⟩

/-- A number that has so many digits before the point is rounded to that many digits by rounding it
to an integer, wherever the point is then moved. -/
theorem isRounding_grid (two : 2 ≤ digits) (low : 10 ^ (digits - 1) ≤ t) (high : t < 10 ^ digits)
    (half : |t - k| ≤ 1 / 2) (even : |t - k| = 1 / 2 → Even k) (e : ℤ) :
    IsRounding digits (t * 10 ^ e) (k * 10 ^ e) := by
  have step := ten_zpow_pos e
  have positive : (0 : ℤ) < 10 ^ (digits - 1) := by positivity
  have least := ge_of_half half low
  have same : |k| = k := abs_of_pos (positive.trans_le least)
  obtain ⟨n, f, form, bound, full, last⟩ := exists_form two (same.trans_le (le_of_half half high)) e
  -- The numbers below the grid are farther away than the first number on it.
  have nearer : ∀ {y}, |y| < 10 ^ (digits - 1) * 10 ^ e →
      |t * 10 ^ e - k * 10 ^ e| < |t * 10 ^ e - y| := by
    intro y small
    have first := nearest_of_half half (10 ^ (digits - 1))
    push_cast at first
    rw [abs_of_nonneg (by linarith : 0 ≤ t - 10 ^ (digits - 1))] at first
    rw [abs_scaled]
    calc |t - k| * 10 ^ e ≤ (t - 10 ^ (digits - 1)) * 10 ^ e :=
          mul_le_mul_of_nonneg_right first step.le
      _ = t * 10 ^ e - 10 ^ (digits - 1) * 10 ^ e := sub_mul ..
      _ < t * 10 ^ e - y := by linarith [le_abs_self y]
      _ ≤ |t * 10 ^ e - y| := le_abs_self _
  constructor
  · exact ⟨n, f, bound, form⟩
  · intro y short
    obtain ⟨j, rfl⟩ | small := short.grid e
    · rw [abs_scaled, abs_scaled]
      exact mul_le_mul_of_nonneg_right (nearest_of_half half j) step.le
    · exact (nearer small).le
  · intro y short other tie
    obtain ⟨j, rfl⟩ | small := short.grid e
    · rw [abs_scaled, abs_scaled] at tie
      have apart : j ≠ k := by
        rintro rfl
        exact other rfl
      have halves := half_of_tie half apart (mul_right_cancel₀ step.ne' tie)
      exact ⟨n, f, form, full (by rwa [same]), bound, last (even halves)⟩
    · exact absurd tie (nearer small).ne'

theorem IsRounding.neg (h : IsRounding digits q x) : IsRounding digits (-q) (-x) := by
  have distance : ∀ a b : ℚ, |(-a) - b| = |a - -b| := by
    intro a b
    rw [← abs_neg]
    congr 1
    ring
  constructor
  · exact h.short.neg
  · intro y short
    rw [distance, distance, neg_neg]
    exact h.nearest (-y) short.neg
  · intro y short other tie
    rw [distance, distance, neg_neg] at tie
    have apart : -y ≠ x := fun same => other (neg_eq_iff_eq_neg.1 same)
    obtain ⟨n, e, form, full, bound, even⟩ := h.even (-y) short.neg apart tie
    refine ⟨-n, e, ?_, by rwa [abs_neg], by rwa [abs_neg], even.neg⟩
    rw [form]
    push_cast
    ring

/-- A sign is kept apart from the rounding. -/
theorem IsRounding.signed (h : IsRounding digits q x) (s : Bool) :
    IsRounding digits (signOf s * q) (signOf s * x) := by
  cases s with
  | false => simpa [signOf] using h
  | true => simpa [signOf] using h.neg

theorem isRounding_self (short : Short digits q) : IsRounding digits q q := by
  constructor
  · exact short
  · intro y _
    rw [sub_self, abs_zero]
    exact abs_nonneg _
  · intro y _ other tie
    rw [sub_self, abs_zero, abs_eq_zero, sub_eq_zero] at tie
    exact absurd tie.symm other

/-- Between two even integers that a number is equally far from, there is a nearer one. -/
theorem exists_nearer (hj : Even j) (hk : Even k) (apart : j ≠ k) (tie : |t - j| = |t - k|) :
    ∃ n : ℤ, |n| ≤ |k| + 1 ∧ |t - n| < |t - k| := by
  obtain same | opposite := abs_eq_abs.1 tie
  · exact absurd (by exact_mod_cast sub_right_injective same) apart
  have middle : t = (j + k) / 2 := by linarith
  obtain ⟨a, rfl⟩ := hj
  obtain ⟨b, rfl⟩ := hk
  push_cast at middle
  have half : t = a + b := by linarith
  rcases lt_or_gt_of_ne (show a ≠ b by omega) with below | above
  · have one : (a : ℚ) + 1 ≤ b := by exact_mod_cast below
    refine ⟨b + b - 1, (abs_sub _ _).trans (by simp), ?_⟩
    push_cast
    rw [half, abs_of_nonpos (by linarith), abs_of_nonpos (by linarith)]
    linarith
  · have one : (b : ℚ) + 1 ≤ a := by exact_mod_cast above
    refine ⟨b + b + 1, (abs_add_le _ _).trans (by simp), ?_⟩
    push_cast
    rw [half, abs_of_nonneg (by linarith), abs_of_nonneg (by linarith)]
    linarith

/-- Only one number is the rounded one. -/
theorem IsRounding.unique (two : 2 ≤ digits) (h : IsRounding digits q x)
    (h' : IsRounding digits q y) : x = y := by
  by_contra apart
  have tie : |q - y| = |q - x| := le_antisymm (h'.nearest x h.short) (h.nearest y h'.short)
  obtain ⟨n, e, rfl, -, bound, even⟩ := h.even y h'.short (Ne.symm apart) tie
  obtain ⟨m, f, rfl, -, bound', even'⟩ := h'.even _ h.short apart tie.symm
  wlog order : e ≤ f generalizing n e m f
  · exact this m f h' bound' even' n e h (Ne.symm apart) tie.symm bound even (by omega)
  -- On the grid of the finer number both are even, so one between them is nearer.
  obtain ⟨j, form, parity⟩ : ∃ j : ℤ, (m * 10 ^ f : ℚ) = j * 10 ^ e ∧ Even j := by
    refine ⟨m * 10 ^ (f - e).toNat, ?_, even'.mul_right _⟩
    rw [ten_zpow_shift (e := e) (f := f) (n := (f - e).toNat) (by omega)]
    push_cast
    ring
  have step := ten_zpow_pos e
  have scaled : q = q / 10 ^ e * 10 ^ e := (div_mul_cancel₀ q step.ne').symm
  generalize q / 10 ^ e = t at scaled
  rw [form] at apart tie
  rw [scaled, abs_scaled, abs_scaled] at tie
  have distinct : j ≠ n := by
    rintro rfl
    exact apart rfl
  obtain ⟨k, near, nearer⟩ :=
    exists_nearer parity even distinct (mul_right_cancel₀ step.ne' tie)
  have least := h.nearest _ (short_of_le (k := k) two (by omega) e)
  rw [scaled, abs_scaled, abs_scaled] at least
  exact absurd (le_of_mul_le_mul_right least step) nearer.not_ge

end PlcLang.Decimal
