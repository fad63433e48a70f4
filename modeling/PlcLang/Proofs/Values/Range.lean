import PlcLang.Decimal.Arithmetic
import PlcLang.Decimal.Text

/-! Which decimals are in range, and that a minus sign stays among them. -/

namespace PlcLang

theorem digitCount_le {n k : Nat} (positive : 0 < k) (h : n < tenTo k) : digitCount n ≤ k := by
  by_cases zero : n = 0
  · subst zero
    exact positive
  · have low := tenTo_digitCount_le (Nat.pos_of_ne_zero zero)
    by_cases fits : digitCount n ≤ k
    · exact fits
    · have more := tenTo_le_tenTo (m := k) (n := digitCount n - 1) (by omega)
      omega

theorem lt_tenTo_of_digitCount_le {n k : Nat} (h : digitCount n ≤ k) : n < tenTo k :=
  Nat.lt_of_lt_of_le (lt_tenTo_digitCount n) (tenTo_le_tenTo h)

theorem digitCount_le_iff {n k : Nat} (positive : 0 < k) : digitCount n ≤ k ↔ n < tenTo k :=
  ⟨lt_tenTo_of_digitCount_le, digitCount_le positive⟩

theorem digitCount_le_digitCount {m n : Nat} (h : m ≤ n) : digitCount m ≤ digitCount n :=
  digitCount_le (digitCount_pos n) (Nat.lt_of_le_of_lt h (lt_tenTo_digitCount n))

namespace Decimal

/-- The exponent that the range bounds from above: that of the first digit, or of a zero. -/
def top (c : Nat) (e : Int) : Int :=
  if c = 0 then e else leading c e

theorem settle_ok {ctx : Context} {negative : Bool} {c : Nat} {e : Int}
    (short : digitCount c ≤ ctx.precision) (below : top c e ≤ ctx.maxExponent) :
    settle ctx negative c e = .ok (.finite negative c e) := by
  have long : ¬ ctx.precision < digitCount c := Nat.not_lt.2 short
  have bounded : ¬ (c ≠ 0 ∧ ctx.maxExponent < leading c e) := by
    rintro ⟨nonzero, above⟩
    rw [top, if_neg nonzero] at below
    omega
  simp only [settle, if_neg long, if_neg bounded]

/-- What settling gives: the coefficient, or all of it but its last digit. -/
theorem settle_eq_ok {ctx : Context} {negative : Bool} {c : Nat} {e : Int} {d : Decimal}
    (h : settle ctx negative c e = .ok d) :
    (ctx.precision < digitCount c ∧ d = .finite negative (c / 10) (e + 1) ∧
        (c / 10 ≠ 0 → leading (c / 10) (e + 1) ≤ ctx.maxExponent)) ∨
      (digitCount c ≤ ctx.precision ∧ d = .finite negative c e ∧
        (c ≠ 0 → leading c e ≤ ctx.maxExponent)) := by
  by_cases long : ctx.precision < digitCount c
  · left
    simp only [settle, if_pos long] at h
    split at h
    · cases h
    · rename_i fits
      cases h
      exact ⟨long, rfl, fun nonzero => Int.not_lt.1 fun above => fits ⟨nonzero, above⟩⟩
  · right
    simp only [settle, if_neg long] at h
    split at h
    · cases h
    · rename_i fits
      cases h
      exact ⟨Nat.not_lt.1 long, rfl, fun nonzero => Int.not_lt.1 fun above => fits ⟨nonzero, above⟩⟩

/-- A finite number is in range if its digits are few enough and its exponents neither too small
nor too large. -/
theorem inRange_finite {negative : Bool} {c : Nat} {e : Int} :
    (Decimal.finite negative c e).inRange = true ↔
      digitCount c ≤ Context.exact.precision ∧ Context.exact.tiny ≤ e ∧
        top c e ≤ Context.exact.maxExponent := by
  have fixed : (Decimal.finite negative c e).inRange = true ↔
      round .exact negative c e = .ok (.finite negative c e) := by
    rw [inRange]
    cases round .exact negative c e <;> simp [Except.toOption]
  rw [fixed, round]
  by_cases zero : c = 0
  · subst zero
    rw [if_pos rfl, top, if_pos rfl, Except.ok.injEq, Decimal.finite.injEq]
    have one : digitCount 0 = 1 := by decide
    rw [one]
    simp only [true_and, Context.exact, Context.tiny]
    omega
  · rw [if_neg zero, top, if_neg zero]
    simp only
    split
    · rename_i cut
      constructor
      · intro h
        rcases settle_eq_ok h with ⟨-, same, -⟩ | ⟨-, same, -⟩
        · rw [Decimal.finite.injEq] at same
          omega
        · rw [Decimal.finite.injEq] at same
          omega
      · rintro ⟨short, low, -⟩
        rw [leading] at cut
        omega
    · rename_i whole
      have few : Context.exact.tiny ≤ e ∧ digitCount c ≤ Context.exact.precision := by
        rw [leading] at whole
        omega
      constructor
      · intro h
        rcases settle_eq_ok h with ⟨long, -, -⟩ | ⟨short, -, below⟩
        · omega
        · exact ⟨short, few.1, below zero⟩
      · rintro ⟨short, -, below⟩
        exact settle_ok short (by rw [top, if_neg zero]; exact below)

theorem nearest_le (num den : Nat) : nearest num den ≤ num / den + 1 := by
  simp only [nearest]
  split
  · omega
  · split
    · omega
    · omega

/-- Dropping digits leaves as many as there are others, and one more if they round up to it. -/
theorem digitCount_dropDigits (c places : Nat) :
    digitCount (dropDigits c places) ≤ digitCount c - places + 1 := by
  rw [dropDigits]
  split
  · exact digitCount_le (Nat.succ_pos _) (tenTo_pos _)
  · rename_i fits
    have split_digits : tenTo (digitCount c) = tenTo places * tenTo (digitCount c - places) := by
      rw [← tenTo_add]
      congr 1
      omega
    have quotient : c / tenTo places < tenTo (digitCount c - places) := by
      apply Nat.div_lt_of_lt_mul
      rw [← split_digits]
      exact lt_tenTo_digitCount c
    have rounded : nearest c (tenTo places) < tenTo (digitCount c - places + 1) := by
      have next : tenTo (digitCount c - places + 1) = tenTo (digitCount c - places) * 10 :=
        tenTo_add _ 1
      have positive := tenTo_pos (digitCount c - places)
      have near := nearest_le c (tenTo places)
      omega
    exact digitCount_le (Nat.succ_pos _) rounded

/-- What settles in the context of a sign is in range, whatever the sign. -/
theorem inRange_settle {negative : Bool} {c : Nat} {e : Int} {d : Decimal}
    (h : settle .sign negative c e = .ok d) (few : digitCount c ≤ 29)
    (low : Context.exact.tiny ≤ e) (high : e < Context.exact.maxExponent) : d.inRange = true := by
  have bound : Context.sign.maxExponent ≤ Context.exact.maxExponent := by decide
  have wide : 29 ≤ Context.exact.precision := by decide
  rcases settle_eq_ok h with ⟨-, rfl, below⟩ | ⟨-, rfl, below⟩
  · have fewer := digitCount_le_digitCount (Nat.div_le_self c 10)
    refine inRange_finite.2 ⟨by omega, by omega, ?_⟩
    rw [top]
    split
    · omega
    · rename_i nonzero
      have := below nonzero
      omega
  · refine inRange_finite.2 ⟨by omega, low, ?_⟩
    rw [top]
    split
    · omega
    · rename_i nonzero
      have := below nonzero
      omega

/-- Rounding a number in range as a sign requires gives a number in range. -/
theorem inRange_round {negative : Bool} {c : Nat} {e : Int} {d : Decimal}
    (range : (Decimal.finite negative c e).inRange = true) {sign : Bool}
    (h : round .sign sign c e = .ok d) : d.inRange = true := by
  obtain ⟨short, low, below⟩ := inRange_finite.1 range
  have precise : Context.sign.precision = 28 := rfl
  have least : Context.sign.tiny = -1000026 := rfl
  have wide : Context.exact.tiny ≤ -1000026 ∧ -1000026 < Context.exact.maxExponent := by decide
  have bound : Context.sign.maxExponent < Context.exact.maxExponent := by decide
  rw [round] at h
  split at h
  · have one : digitCount 0 = 1 := by decide
    have most : Context.sign.maxExponent = 999999 := rfl
    cases h
    refine inRange_finite.2 ⟨by rw [one]; decide, by omega, ?_⟩
    rw [top, if_pos rfl]
    omega
  · rename_i nonzero
    rw [top, if_neg nonzero, leading] at below
    rw [leading, precise] at h
    generalize last : max Context.sign.tiny (e + digitCount c - 1 - (28 : Nat) + 1) = l at h
    simp only at h
    split at h
    · rename_i cut
      have few := digitCount_dropDigits c (l - e).toNat
      exact inRange_settle h (by omega) (by omega) (by omega)
    · rename_i whole
      rcases settle_eq_ok h with ⟨long, -, -⟩ | ⟨-, rfl, -⟩
      · omega
      · refine inRange_finite.2 ⟨short, low, ?_⟩
        rw [top, if_neg nonzero, leading]
        exact below

/-- A minus sign keeps a number in range. -/
theorem inRange_neg {d d' : Decimal} (range : d.inRange = true) (h : d.neg .sign = .ok d') :
    d'.inRange = true := by
  cases d with
  | finite negative c e => exact inRange_round range h
  | infinite negative =>
    cases h
    rfl
  | nan negative signaling payload =>
    cases signaling with
    | true => cases h
    | false =>
      cases h
      rfl

end Decimal

end PlcLang
