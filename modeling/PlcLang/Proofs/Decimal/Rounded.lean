import Mathlib
import PlcLang.Proofs.Decimal.Nearest

/-! Rounding in a context: of a number that is at hand, and of a quotient. -/

namespace PlcLang.Decimal

/-- A finite number of the given sign, without more digits than the context keeps, and the nearest
to `q`. -/
def Rounds (ctx : Context) (s : Bool) (q : ℚ) (result : Except Signal Decimal) : Prop :=
  ∃ c e, result = .ok (.finite s c e) ∧ digitCount c ≤ ctx.precision ∧
    IsRounding ctx.precision q (size c e)

variable {ctx : Context} {c d num den unit : ℕ} {e f last : ℤ} {q : ℚ}

theorem leading_le_of_size (h : c ≠ 0) {k : ℤ} (small : size c e < 10 ^ (k + 1)) :
    leading c e ≤ k :=
  le_of_ten_zpow_lt ((leading_le h e).1.trans_lt small)

/-- Settling keeps the number, also where the rounded coefficient has gained a digit. -/
theorem settle_kept (s : Bool) (one : 1 ≤ ctx.precision) (few : c ≤ tenTo ctx.precision)
    (small : size c e < 10 ^ (ctx.maxExponent + 1)) :
    ∃ c' e', settle ctx s c e = .ok (.finite s c' e') ∧ size c' e' = size c e ∧
      digitCount c' ≤ ctx.precision := by
  by_cases long : ctx.precision < digitCount c
  · have full : c = tenTo (ctx.precision - 1) * tenTo 1 := by
      have most : tenTo ctx.precision ≤ c := by
        by_contra less
        have := digitCount_le one (Nat.not_le.1 less)
        omega
      rw [← tenTo_add, Nat.sub_add_cancel one]
      exact le_antisymm few most
    have tenth : c / 10 = tenTo (ctx.precision - 1) := by
      rw [full]
      exact Nat.mul_div_cancel _ (by decide)
    have kept : size (c / 10) (e + 1) = size c e := by
      rw [tenth, full, size_shift]
      rfl
    have nonzero : c / 10 ≠ 0 := by
      rw [tenth]
      exact (tenTo_pos _).ne'
    have bounded := leading_le_of_size nonzero (kept ▸ small)
    refine ⟨c / 10, e + 1, ?_, kept, ?_⟩
    · simp only [settle, if_pos long]
      rw [if_neg (by omega)]
    · rw [tenth]
      refine digitCount_le one ?_
      exact Nat.pow_lt_pow_right (by decide) (by omega)
  · have short := Nat.not_lt.1 long
    refine ⟨c, e, ?_, rfl, short⟩
    simp only [settle, if_neg long]
    rw [if_neg]
    rintro ⟨nonzero, above⟩
    have := leading_le_of_size nonzero small
    omega

theorem pow_le_scaled {n : ℕ} (h : 0 < n) : 10 ^ (e + n - 1) ≤ q * 10 ^ e ↔ 10 ^ (n - 1) ≤ q := by
  rw [ten_zpow_shift (e := e) (n := n - 1) (by omega)]
  exact mul_le_mul_iff_left₀ (ten_zpow_pos e)

theorem scaled_lt_pow {n : ℕ} : q * 10 ^ e < 10 ^ (e + n) ↔ q < 10 ^ n := by
  rw [ten_zpow_shift rfl]
  exact mul_lt_mul_iff_left₀ (ten_zpow_pos e)

/-- What is settled is the nearest number, if a quotient was rounded to an integer where all the
digits that the context keeps stand before the point, and perhaps zeros at the end were dropped. -/
theorem settle_rounds (s : Bool) (two : 2 ≤ ctx.precision) (positive : 0 < unit)
    (value : q = num / unit * 10 ^ last) (low : 10 ^ (last + ctx.precision - 1) ≤ q)
    (high : q < 10 ^ (last + ctx.precision))
    (same : size c e = size (nearest num unit) last) (less : c ≤ nearest num unit)
    (fits : ∀ x, IsRounding ctx.precision q x → x < 10 ^ (ctx.maxExponent + 1)) :
    Rounds ctx s q (settle ctx s c e) := by
  subst value
  have least := (pow_le_scaled (by omega)).1 low
  have most := scaled_lt_pow.1 high
  obtain ⟨half, even⟩ := nearest_half num positive
  rw [← Int.cast_natCast (nearest num unit)] at half even
  have rounding := isRounding_grid two least most half (fun tie => by exact_mod_cast even tie) last
  rw [Int.cast_natCast] at rounding
  have few : nearest num unit ≤ tenTo ctx.precision := by
    have bound := le_of_half half most
    exact_mod_cast bound
  have small : size c e < 10 ^ (ctx.maxExponent + 1) := by
    rw [same]
    exact fits _ rounding
  obtain ⟨c', e', settled, kept, short⟩ := settle_kept s (by omega) (less.trans few) small
  refine ⟨c', e', settled, short, ?_⟩
  rw [kept, same]
  exact rounding

/-! ### Numbers -/

/-- The point of a quotient is moved by zeros at the end of the divisor. -/
theorem drop_places (num den : ℕ) (h : e ≤ last) :
    (num : ℚ) / den * 10 ^ e = num / (den * tenTo (last - e).toNat : ℕ) * 10 ^ last := by
  rw [ten_zpow_shift (e := e) (f := last) (n := (last - e).toNat) (by omega)]
  push_cast
  rw [cast_tenTo]
  field_simp

/-- A number that is not too small for the context is rounded to its digits. -/
theorem round_rounds (s : Bool) (two : 2 ≤ ctx.precision) (nonzero : c ≠ 0)
    (normal : ctx.minExponent ≤ leading c e)
    (fits : ∀ x, IsRounding ctx.precision (size c e) x → x < 10 ^ (ctx.maxExponent + 1)) :
    Rounds ctx s (size c e) (round ctx s c e) := by
  have least : ctx.tiny = ctx.minExponent - ctx.precision + 1 := rfl
  have first : leading c e = e + digitCount c - 1 := rfl
  obtain ⟨low, high⟩ := leading_le nonzero e
  rw [round, if_neg nonzero]
  simp only
  generalize last_eq : max ctx.tiny (leading c e - ctx.precision + 1) = last
  have last_is : leading c e = last + ctx.precision - 1 := by omega
  split
  · rename_i cut
    have kept : ¬ digitCount c < (last - e).toNat := by omega
    rw [dropDigits, if_neg kept]
    have value : size c e = c / (tenTo (last - e).toNat : ℕ) * 10 ^ last := by
      have moved := drop_places c 1 (show e ≤ last by omega)
      rwa [Nat.cast_one, div_one, one_mul] at moved
    refine settle_rounds s two (tenTo_pos _) value ?_ ?_ rfl le_rfl fits
    · rwa [← last_is]
    · rwa [last_is, sub_add_cancel] at high
  · rename_i whole
    have short : digitCount c ≤ ctx.precision := by omega
    have few : c ≤ tenTo ctx.precision := (lt_tenTo_of_digitCount_le short).le
    have rounding := isRounding_self (short_of_digitCount short e)
    obtain ⟨c', e', settled, kept, short'⟩ := settle_kept s (by omega) few (fits _ rounding)
    refine ⟨c', e', settled, short', ?_⟩
    rw [kept]
    exact rounding

/-! ### Quotients -/

end PlcLang.Decimal
