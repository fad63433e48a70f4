import Mathlib
import PlcLang.Proofs.Values.Range

/-! The number that a decimal stands for, and rounding that loses nothing of it. -/

namespace PlcLang

theorem ten_zpow_pos (e : ℤ) : (0 : ℚ) < 10 ^ e :=
  zpow_pos (by norm_num) e

theorem ten_zpow_add {e f g : ℤ} (h : g = e + f) : (10 : ℚ) ^ g = 10 ^ e * 10 ^ f := by
  rw [h, zpow_add₀ (by norm_num)]

/-- Powers of ten whose exponents are so many apart. -/
theorem ten_zpow_shift {e f : ℤ} {n : ℕ} (h : f = e + n) : (10 : ℚ) ^ f = 10 ^ n * 10 ^ e := by
  rw [ten_zpow_add h, zpow_natCast, mul_comm]

theorem le_of_ten_zpow_lt {k m : ℤ} (h : (10 : ℚ) ^ k < 10 ^ (m + 1)) : k ≤ m := by
  have := (zpow_lt_zpow_iff_right₀ (by norm_num : (1 : ℚ) < 10)).1 h
  omega

theorem cast_tenTo (n : ℕ) : (tenTo n : ℚ) = 10 ^ n := by
  have power : tenTo n = 10 ^ n := rfl
  rw [power]
  push_cast
  rfl

namespace Decimal

/-- The number of a coefficient and an exponent. -/
def size (c : ℕ) (e : ℤ) : ℚ :=
  c * 10 ^ e

/-- One or minus one. -/
def signOf (negative : Bool) : ℚ :=
  if negative then -1 else 1

/-- The number that a finite decimal stands for. -/
def value : Decimal → ℚ
  | .finite negative c e => signOf negative * size c e
  | _ => 0

variable {c d : ℕ} {e f : ℤ}

/-! ### Sizes -/

theorem size_zero (e : ℤ) : size 0 e = 0 := by
  simp [size]

theorem size_pos (h : c ≠ 0) (e : ℤ) : 0 < size c e := by
  have positive : (0 : ℚ) < c := by exact_mod_cast Nat.pos_of_ne_zero h
  exact mul_pos positive (ten_zpow_pos e)

theorem size_eq_zero : size c e = 0 ↔ c = 0 := by
  constructor
  · intro h
    by_contra nonzero
    exact absurd h (size_pos nonzero e).ne'
  · rintro rfl
    exact size_zero e

/-- Digits that are written at the end of a coefficient are taken from the exponent. -/
theorem size_shift (c k : ℕ) (e : ℤ) : size (c * tenTo k) e = size c (e + k) := by
  rw [size, size, Nat.cast_mul, cast_tenTo, zpow_add₀ (by norm_num), zpow_natCast]
  ring

/-- The same with the lower of two exponents. -/
theorem size_lower (c : ℕ) (h : f ≤ e) : size (c * tenTo (e - f).toNat) f = size c e := by
  rw [size_shift, Int.toNat_of_nonneg (by omega)]
  congr 1
  omega

/-- The first digit tells the size up to a power of ten. -/
theorem leading_le (h : c ≠ 0) (e : ℤ) :
    10 ^ leading c e ≤ size c e ∧ size c e < 10 ^ (leading c e + 1) := by
  have scale := ten_zpow_pos e
  have digits := digitCount_pos c
  have place : leading c e = e + digitCount c - 1 := rfl
  have first : (10 : ℚ) ^ leading c e = (tenTo (digitCount c - 1) : ℕ) * 10 ^ e := by
    rw [cast_tenTo]
    exact ten_zpow_shift (by omega)
  have next : (10 : ℚ) ^ (leading c e + 1) = (tenTo (digitCount c) : ℕ) * 10 ^ e := by
    rw [cast_tenTo]
    exact ten_zpow_shift (by omega)
  have low : (tenTo (digitCount c - 1) : ℚ) ≤ c := by
    exact_mod_cast tenTo_digitCount_le (Nat.pos_of_ne_zero h)
  have high : (c : ℚ) < tenTo (digitCount c) := by exact_mod_cast lt_tenTo_digitCount c
  rw [first, next]
  exact ⟨mul_le_mul_of_nonneg_right low scale.le, mul_lt_mul_of_pos_right high scale⟩

/-- A power of ten that a number reaches is no higher than its first digit. -/
theorem le_leading (h : c ≠ 0) {k : ℤ} : 10 ^ k ≤ size c e ↔ k ≤ leading c e := by
  obtain ⟨low, high⟩ := leading_le h e
  constructor
  · intro reached
    exact le_of_ten_zpow_lt (reached.trans_lt high)
  · intro below
    exact (zpow_le_zpow_right₀ (by norm_num) below).trans low

/-- Numbers of one size have their first digit in one place. -/
theorem leading_congr (h : c ≠ 0) (same : size c e = size d f) : leading c e = leading d f := by
  have other : d ≠ 0 := by
    intro zero
    rw [size_eq_zero.2 zero] at same
    exact h (size_eq_zero.1 same)
  refine le_antisymm ?_ ?_
  · rw [← le_leading other, ← same]
    exact (leading_le h e).1
  · rw [← le_leading h, same]
    exact (leading_le other f).1

/-- Of two coefficients of one size, that with the lower exponent has more zeros at its end. -/
theorem eq_mul_tenTo (same : size c e = size d f) (h : e ≤ f) : c = d * tenTo (f - e).toNat := by
  rw [← size_lower d h, size, size] at same
  exact_mod_cast mul_right_cancel₀ (ten_zpow_pos e).ne' same

/-! ### Rounding what need not be rounded -/

theorem nearest_mul (m : ℕ) {den : ℕ} (positive : 0 < den) : nearest (m * den) den = m := by
  simp [nearest, Nat.mul_mod_left, Nat.mul_div_cancel m positive, positive]

/-- A number has as many digits again as zeros are written at its end. -/
theorem lt_digitCount_mul {m : ℕ} (h : m ≠ 0) (k : ℕ) : k < digitCount (m * tenTo k) := by
  by_contra few
  have reached : tenTo k ≤ m * tenTo k := Nat.le_mul_of_pos_left _ (Nat.pos_of_ne_zero h)
  have below := lt_tenTo_of_digitCount_le (Nat.not_lt.1 few)
  omega

/-- Zeros at the end are dropped exactly. -/
theorem dropDigits_mul (m k : ℕ) : dropDigits (m * tenTo k) k = m := by
  rw [dropDigits, nearest_mul m (tenTo_pos k)]
  split
  · rename_i few
    by_contra nonzero
    have := lt_digitCount_mul (Ne.symm nonzero) k
    omega
  · rfl

/-- Rounding a number keeps it if the context holds it in some form. -/
theorem round_exact {ctx : Context} (negative : Bool) (same : size c e = size d f)
    (short : digitCount d ≤ ctx.precision) (low : ctx.tiny ≤ f) (high : top d f ≤ ctx.maxExponent) :
    ∃ c' e', round ctx negative c e = .ok (.finite negative c' e') ∧
      size c' e' = size c e ∧ digitCount c' ≤ ctx.precision := by
  have wide : 1 ≤ ctx.precision := (digitCount_pos d).trans_le short
  rw [round]
  split
  · rename_i zero
    have one : digitCount 0 = 1 := by decide
    exact ⟨0, _, rfl, by rw [zero, size_zero, size_zero], by omega⟩
  · rename_i nonzero
    have first := leading_congr nonzero same
    have other : d ≠ 0 := fun zero => nonzero (by
      rw [zero, size_zero] at same
      exact size_eq_zero.1 same)
    rw [top, if_neg other, ← first] at high
    have place : leading c e = f + digitCount d - 1 := first
    have begin : leading c e = e + digitCount c - 1 := rfl
    simp only
    generalize last_eq : max ctx.tiny (leading c e - ctx.precision + 1) = last
    split
    · rename_i cut
      -- The digits that are dropped are zeros, since the short form does without them.
      have above : last ≤ f := by omega
      have parts : c = d * tenTo (f - last).toNat * tenTo (last - e).toNat := by
        rw [eq_mul_tenTo same (by omega), mul_assoc, ← tenTo_add]
        congr 2
        omega
      have kept : size (d * tenTo (f - last).toNat) last = size c e := by
        rw [size_lower d above, same]
      have still : leading (d * tenTo (f - last).toNat) last = leading c e :=
        (leading_congr nonzero kept.symm).symm
      have shorter : digitCount (d * tenTo (f - last).toNat) ≤ ctx.precision := by
        rw [leading] at still
        omega
      have dropped : dropDigits c (last - e).toNat = d * tenTo (f - last).toNat := by
        rw [parts, dropDigits_mul]
      rw [dropped]
      have left : d * tenTo (f - last).toNat ≠ 0 :=
        Nat.mul_ne_zero other (tenTo_pos _).ne'
      refine ⟨_, _, settle_ok shorter ?_, kept, shorter⟩
      rwa [top, if_neg left, still]
    · rename_i all
      refine ⟨c, e, settle_ok (by omega) ?_, rfl, by omega⟩
      rwa [top, if_neg nonzero]

/-! ### Order -/

/-- Coefficients of one exponent stand in the order of the numbers. -/
theorem compare_size (m n : ℕ) (e : ℤ) : compare m n = compare (size m e) (size n e) := by
  have scale := ten_zpow_pos e
  rcases lt_trichotomy m n with h | rfl | h
  · have sizes : size m e < size n e := mul_lt_mul_of_pos_right (by exact_mod_cast h) scale
    rw [compare_lt_iff_lt.2 h, compare_lt_iff_lt.2 sizes]
  · rw [compare_eq_iff_eq.2 rfl, compare_eq_iff_eq.2 rfl]
  · have sizes : size n e < size m e := mul_lt_mul_of_pos_right (by exact_mod_cast h) scale
    rw [compare_gt_iff_gt.2 h, compare_gt_iff_gt.2 sizes]

/-- A number whose first digit stands lower is smaller. -/
theorem size_lt_of_leading (hc : c ≠ 0) (hd : d ≠ 0) (h : leading c e < leading d f) :
    size c e < size d f :=
  calc
    size c e < 10 ^ (leading c e + 1) := (leading_le hc e).2
    _ ≤ 10 ^ leading d f := zpow_le_zpow_right₀ (by norm_num) h
    _ ≤ size d f := (leading_le hd f).1

theorem compareMagnitude_eq (hc : c ≠ 0) (hd : d ≠ 0) :
    compareMagnitude c e d f = compare (size c e) (size d f) := by
  rw [compareMagnitude, if_neg (not_or.2 ⟨hc, hd⟩)]
  split
  · rename_i lower
    exact (compare_lt_iff_lt.2 (size_lt_of_leading hc hd lower)).symm
  · split
    · rename_i higher
      exact (compare_gt_iff_gt.2 (size_lt_of_leading hd hc higher)).symm
    · have left : (e - f).toNat = (e - min e f).toNat := by omega
      have right : (f - e).toNat = (f - min e f).toNat := by omega
      rw [compare_size _ _ (min e f), left, right, size_lower c (min_le_left e f),
        size_lower d (min_le_right e f)]

theorem value_positive (c : ℕ) (e : ℤ) : (Decimal.finite false c e).value = size c e :=
  one_mul _

theorem value_negative (c : ℕ) (e : ℤ) : (Decimal.finite true c e).value = -size c e :=
  neg_one_mul _

/-- A number of one sign with its neighbour of that sign, and of the other one. -/
theorem compare?_nonzero (hc : c ≠ 0) (hd : d ≠ 0) (s t : Bool) :
    (Decimal.finite s c e).compare? (.finite t d f) =
      some (compare (Decimal.finite s c e).value (Decimal.finite t d f).value) := by
  have first := size_pos hc e
  have second := size_pos hd f
  simp only [compare?, hc, hd, and_self, ↓reduceIte]
  cases s with
  | false =>
    rw [value_positive]
    cases t with
    | false => rw [value_positive, ← compareMagnitude_eq hc hd]
    | true => rw [value_negative, compare_gt_iff_gt.2 (by linarith)]
  | true =>
    rw [value_negative]
    cases t with
    | false => rw [value_positive, compare_lt_iff_lt.2 (by linarith)]
    | true =>
      rw [value_negative]
      simp only [compareMagnitude_eq hd hc]
      rcases lt_trichotomy (size d f) (size c e) with h | h | h
      · rw [compare_lt_iff_lt.2 h, compare_lt_iff_lt.2 (by linarith)]
      · rw [compare_eq_iff_eq.2 h, compare_eq_iff_eq.2 (by linarith)]
      · rw [compare_gt_iff_gt.2 h, compare_gt_iff_gt.2 (by linarith)]

/-- Finite decimals stand in the order of the numbers that they stand for. -/
theorem compare?_eq {x y : Decimal} (hx : x.isFinite = true) (hy : y.isFinite = true) :
    x.compare? y = some (compare x.value y.value) := by
  have zero (s : Bool) (e : ℤ) : (Decimal.finite s 0 e).value = 0 := by
    rw [value, size_zero, mul_zero]
  cases x with
  | finite s c e =>
    cases y with
    | finite t d f =>
      by_cases hc : c = 0
      · subst hc
        by_cases hd : d = 0
        · subst hd
          rw [zero, zero, compare_eq_iff_eq.2 rfl]
          rfl
        · have positive := size_pos hd f
          simp only [compare?, hd, and_false, ↓reduceIte, zero]
          cases t with
          | false => rw [value_positive, compare_lt_iff_lt.2 positive]; rfl
          | true => rw [value_negative, compare_gt_iff_gt.2 (by linarith)]; rfl
      · have positive := size_pos hc e
        by_cases hd : d = 0
        · subst hd
          simp only [compare?, hc, and_true, ↓reduceIte, zero]
          cases s with
          | false => rw [value_positive, compare_gt_iff_gt.2 positive]; rfl
          | true => rw [value_negative, compare_lt_iff_lt.2 (by linarith)]; rfl
        · exact compare?_nonzero hc hd s t
    | _ => cases hy
  | _ => cases hx

end Decimal

end PlcLang
