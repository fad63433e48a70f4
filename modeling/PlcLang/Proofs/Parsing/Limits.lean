import PlcLang.Proofs.Parsing.Lexical

/-! What literals there are in a text, and which of them have no value. -/

namespace PlcLang

/-- What stands between the quotes of a token. -/
def Token.body (t : Token) : List Char :=
  (t.text.drop 1).dropLast

/-! ### Numbers -/

/-- Digits before a point, and digits behind it. -/
def IsPointed (text : List Char) : Prop :=
  ∃ whole places, text = whole ++ '.' :: places ∧ whole ≠ [] ∧ places ≠ [] ∧
    ∀ c ∈ whole ++ places, isDigit c = true

theorem isPointed_of_matchDecimal {cs lexeme rest : List Char}
    (h : matchDecimal cs = some (lexeme, rest)) : IsPointed lexeme := by
  rw [matchDecimal] at h
  split at h
  · rename_i whole after found
    split at h
    · cases h
    · rename_i some_place
      cases h
      refine ⟨whole, _, rfl, ne_nil_of_matchInteger found, some_place, fun c hc => ?_⟩
      rcases List.mem_append.1 hc with hc | hc
      · exact isDigit_of_matchInteger found c hc
      · exact List.mem_takeWhile_imp hc
  · cases h

/-- The number that digits with a point denote has at most as many digits, and as many places as
stand behind the point. -/
theorem decimalNumber_pointed {text : List Char} (h : IsPointed text) :
    ∃ n places : Nat, decimalNumber text = .finite false n (-places) ∧ digitCount n ≤ text.length ∧
      places ≤ text.length := by
  obtain ⟨whole, places, rfl, -, -, digits⟩ := h
  refine ⟨digitsNumber (whole ++ places), places.length,
    decimalNumber_point fun c hc => digits c (List.mem_append_left _ hc), ?_, ?_⟩
  · have small := digitsNumber_lt digits
    rw [List.length_append] at small ⊢
    refine digitCount_le (Nat.add_pos_right _ (Nat.succ_pos _)) (Nat.lt_of_lt_of_le small ?_)
    exact tenTo_le_tenTo (by rw [List.length_cons]; omega)
  · rw [List.length_append, List.length_cons]
    omega

/-- A number without an exponent and with few digits is in range. -/
theorem Decimal.inRange_of_short {n places : Nat} (few : digitCount n ≤ Context.exact.precision)
    (low : places ≤ Context.exact.precision) :
    (Decimal.finite false n (-places)).inRange = true := by
  have precision : Context.exact.precision = 999999999999999999 := rfl
  have most : Context.exact.maxExponent = 999999999999999999 := rfl
  have least : Context.exact.tiny = -1999999999999999997 := rfl
  refine inRange_finite.2 ⟨few, by omega, ?_⟩
  rw [top]
  split
  · omega
  · rw [leading]
    omega

/-- Settling fails only for a first digit that stands too high. -/
theorem Decimal.settle_error {ctx : Context} {negative : Bool} {c : Nat} {e : Int} {signal : Signal}
    (h : settle ctx negative c e = .error signal) :
    signal = .overflow ∧ ctx.maxExponent ≤ e + digitCount c := by
  rw [settle] at h
  split at h
  rename_i c' e' settled
  split at h
  · rename_i above
    cases h
    refine ⟨rfl, ?_⟩
    obtain ⟨-, above⟩ := above
    rw [leading] at above
    split at settled
    · cases settled
      have fewer := digitCount_le_digitCount (Nat.div_le_self c 10)
      omega
    · cases settled
      omega
  · cases h

/-- A minus sign fails only before a number whose first digit stands too high. -/
theorem Decimal.neg_error {n places : Nat} {signal : Signal}
    (h : (Decimal.finite false n (-places)).neg .sign = .error signal) :
    signal = .overflow ∧ 999998 ≤ digitCount n := by
  have most : Context.sign.maxExponent = 999999 := rfl
  have precise : Context.sign.precision = 28 := rfl
  have least : Context.sign.tiny = -1000026 := rfl
  rw [neg, round] at h
  split at h
  · cases h
  · rw [leading, precise, least] at h
    generalize last : max (-1000026 : Int) (-(places : Int) + digitCount n - 1 - (28 : Nat) + 1) = l
      at h
    simp only at h
    split at h
    · obtain ⟨rfl, above⟩ := settle_error h
      have few := digitCount_dropDigits n (l - -(places : Int)).toNat
      exact ⟨rfl, by omega⟩
    · obtain ⟨rfl, above⟩ := settle_error h
      exact ⟨rfl, by omega⟩

/-! ### Tokens -/

/-- A token is a numeral or a quoted text as its kind has them: digits, digits with a point, one
character, or any number of them. -/
structure Token.Readable (t : Token) : Prop where
  integer : t.kind = .integer → t.text ≠ [] ∧ ∀ c ∈ t.text, isDigit c = true
  decimal : t.kind = .decimal → IsPointed t.text
  character : t.kind = .character → ∃ c, Text.unescape t.body = .ok [c]
  string : t.kind = .string → ∃ text, Text.unescape t.body = .ok text

theorem Token.Found.readable {place : Place} {t : Token} (h : t.Found place) : t.Readable := by
  obtain ⟨cs, rest, found⟩ := h
  refine ⟨fun kind => ?_, fun kind => ?_, fun kind => ?_, fun kind => ?_⟩
  all_goals
    rw [kind] at found
    have found := matchToken_eq_some found
  · exact ⟨ne_nil_of_matchInteger found, isDigit_of_matchInteger found⟩
  · exact isPointed_of_matchDecimal found
  · exact (matchCharacter_eq_some.1 found).1.reads
  · exact (matchString_eq_some.1 found).1.reads

/-- The literal of a token has no value: an integer has too many digits; a decimal is out of the
range of decimals; behind a minus sign, it is out of the range in which that rounds. -/
inductive Token.Oversized (place : Place) (t : Token) : ParseError → Prop where
  | integer (kind : t.kind = .integer) (long : Integer.digitLimit < t.text.length) :
      Oversized place t (.longInteger t.text.length)
  | decimal (kind : t.kind = .decimal) (out : (decimalNumber t.text).inRange = false) :
      Oversized place t (.decimal .invalidOperation)
  | signed {signal : Decimal.Signal} (kind : t.kind = .decimal) (sign : place = .sign)
      (kept : (decimalNumber t.text).inRange = true)
      (out : (decimalNumber t.text).neg .sign = .error signal) :
      Oversized place t (.decimal signal)

/-- Just these have a fault. -/
theorem Token.fault?_eq_some {place : Place} {t : Token} {e : ParseError} :
    t.fault? place = some e ↔ t.Oversized place e := by
  constructor
  · intro h
    rw [fault?] at h
    split at h
    · rename_i kind
      split at h
      · rename_i long
        cases h
        exact .integer kind long
      · cases h
    · rename_i kind
      simp only [Decimal.kept] at h
      cases range : (decimalNumber t.text).inRange with
      | false =>
        rw [range] at h
        split at h
        · cases h
        · rename_i failed
          cases h
          split at failed
          · cases failed
            exact .decimal kind range
          · cases failed
            exact .decimal kind range
      | true =>
        rw [range] at h
        split at h
        · cases h
        · rename_i failed
          cases h
          split at failed
          · rename_i sign
            exact .signed kind sign range failed
          · cases failed
    · cases h
  · intro h
    rw [fault?]
    cases h with
    | integer kind long =>
      rw [kind]
      simp only [if_pos long]
    | decimal kind out =>
      rw [kind]
      simp only [Decimal.kept, out]
      split <;> simp_all [Except.bind]
    | signed kind sign kept out =>
      rw [kind]
      simp only [Decimal.kept, kept, if_pos sign, if_true, Except.bind, out]

/-- Such a token is long. -/
theorem Token.Oversized.long {place : Place} {t : Token} {e : ParseError} (h : t.Oversized place e)
    (readable : t.Readable) : Integer.digitLimit < t.text.length := by
  have limit : Integer.digitLimit = 4300 := rfl
  cases h with
  | integer _ long => exact long
  | decimal kind out =>
    obtain ⟨n, places, number, few, low⟩ := decimalNumber_pointed (readable.decimal kind)
    refine Nat.lt_of_not_le fun short => ?_
    have precision : Decimal.Context.exact.precision = 999999999999999999 := rfl
    rw [number, Decimal.inRange_of_short (by omega) (by omega)] at out
    cases out
  | signed kind _ _ out =>
    obtain ⟨n, places, number, few, -⟩ := decimalNumber_pointed (readable.decimal kind)
    rw [number] at out
    have := (Decimal.neg_error out).2
    omega

end PlcLang
