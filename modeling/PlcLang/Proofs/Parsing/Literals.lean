import PlcLang.Proofs.Parsing.Tokens
import PlcLang.Proofs.Parsing.Words
import PlcLang.Proofs.Values.Numerals
import Mathlib.Data.List.Basic

/-! Words for literals. -/

namespace PlcLang

open Word

/-! ### Numbers -/

theorem isDigit_digitChars {ds : List Nat} (hd : ∀ d ∈ ds, d < 10) :
    ∀ c ∈ ds.map Nat.digitChar, isDigit c = true := by
  intro c hc
  obtain ⟨d, mem, rfl⟩ := List.mem_map.1 hc
  have small := hd d mem
  interval_cases d <;> decide

theorem digitsNumber_digitChars {ds : List Nat} (hd : ∀ d ∈ ds, d < 10) :
    digitsNumber (ds.map Nat.digitChar) = digitsValue ds := by
  rw [digitsNumber, digitsValue, List.foldl_map]
  have step : ∀ n, ∀ d ∈ ds, n * 10 + ((Nat.digitChar d).toNat - '0'.toNat) = n * 10 + d := by
    intro n d mem
    rw [show '0'.toNat = 48 from rfl, Nat.toNat_digitChar_sub_48_of_lt_ten (hd d mem)]
  exact List.foldl_ext _ _ 0 step

/-- Digits as numbers have them: a zero alone, or no zero in front. -/
def Canonical (ds : List Nat) : Prop :=
  ds = [0] ∨ ∃ d es, ds = d :: es ∧ d ≠ 0

theorem canonical_digits (n : Nat) : Canonical (digits n) := by
  by_cases zero : n = 0
  · subst zero
    exact .inl (by decide)
  · obtain ⟨d, es, same⟩ := List.exists_cons_of_ne_nil (digits_ne_nil n)
    refine .inr ⟨d, es, same, fun leading => ?_⟩
    have value := digitsValue_digits n
    have length := length_digits n
    have low := tenTo_digitCount_le (Nat.pos_of_ne_zero zero)
    have small : ∀ e ∈ es, e < 10 := fun e he =>
      lt_ten_of_mem_digits (n := n) (by rw [same]; exact List.mem_cons_of_mem d he)
    have short := digitsNumber_lt (isDigit_digitChars small)
    rw [digitsNumber_digitChars small, List.length_map] at short
    have rest : digitsValue es = n := by
      rw [← value, same, leading]
      rfl
    rw [same, List.length_cons] at length
    rw [← length, Nat.add_sub_cancel] at low
    omega

theorem matchInteger_digits {ds : List Nat} (hd : ∀ d ∈ ds, d < 10)
    (canonical : Canonical ds) (rest : List Char) (stop : ∀ c ∈ rest.head?, isDigit c = false) :
    matchInteger (ds.map Nat.digitChar ++ rest) = some (ds.map Nat.digitChar, rest) := by
  rcases canonical with rfl | ⟨d, es, rfl, nonzero⟩
  · rfl
  · have digit := isDigit_digitChars hd
    have first : Nat.digitChar d ≠ '0' := by
      have small := hd d (by simp)
      interval_cases d
      · exact absurd rfl nonzero
      all_goals decide
    have all : ∀ c ∈ es.map Nat.digitChar, isDigit c = true := fun c hc => digit c (by simp_all)
    obtain ⟨take, drop⟩ := takeWhile_of_stop all stop
    rw [List.map_cons, List.cons_append, matchInteger, if_neg first, if_pos (digit _ (by simp)),
      take, drop]

def Word.number (n : Nat) : Word :=
  ⟨.integer, digitChars n⟩

/-- The digits of a coefficient with a point before the last of them. -/
def Word.fraction (coefficient places : Nat) : Word :=
  ⟨.decimal, Decimal.pointed (digitChars coefficient) places⟩

theorem Word.legible_number (n : Nat) : (number n).Legible := by
  have small : ∀ d ∈ digits n, d < 10 := fun d hd => lt_ten_of_mem_digits hd
  obtain ⟨d, es, same⟩ := List.exists_cons_of_ne_nil (digits_ne_nil n)
  refine ⟨fun wanted has rest ends => ?_, Nat.digitChar d, es.map Nat.digitChar, ?_, ?_⟩
  · have found := matchInteger_digits small (canonical_digits n) rest
      (ends.stop (by decide))
    have whole : matchDecimal (digitChars n ++ rest) = none := by
      rw [matchDecimal, digitChars, found]
      cases rest with
      | nil => rfl
      | cons c rest =>
        rw [ends c rfl]
        rfl
    rw [number] at has ⊢
    rw [matchToken, matchKind_eq_none whole, matchKind, if_pos has, digitChars, found]
    rfl
  · rw [number, digitChars, same]
    rfl
  · have first : d < 10 := small d (by simp [same])
    interval_cases d <;> decide

/-- The digits before the point are those of a whole number. -/
theorem canonical_whole (n : Nat) {places : Nat} (some_place : places ≠ 0) :
    Canonical ((Decimal.padded (digits n) places).take
      ((Decimal.padded (digits n) places).length - places)) := by
  by_cases long : places < (digits n).length
  · have none : places + 1 - (digits n).length = 0 := by omega
    have nonzero : n ≠ 0 := by
      rintro rfl
      have one : (digits 0).length = 1 := by decide
      omega
    rw [Decimal.padded, none, List.replicate_zero, List.nil_append]
    rcases canonical_digits n with single | ⟨d, es, same, leading⟩
    · rw [single, List.length_singleton] at long
      omega
    · obtain ⟨k, hk⟩ : ∃ k, (digits n).length - places = k + 1 :=
        ⟨(digits n).length - places - 1, by omega⟩
      rw [hk, same, List.take_succ_cons]
      exact .inr ⟨d, _, rfl, leading⟩
  · obtain ⟨k, hk⟩ : ∃ k, places + 1 - (digits n).length = k + 1 :=
      ⟨places - (digits n).length, by omega⟩
    have length : (Decimal.padded (digits n) places).length - places = 1 := by
      rw [Decimal.padded, List.length_append, List.length_replicate]
      omega
    rw [length, Decimal.padded, hk, List.replicate_succ, List.cons_append, List.take_succ_cons,
      List.take_zero]
    exact .inl rfl

/-- What a number with a point is made of. -/
theorem Word.fraction_text (n : Nat) {places : Nat} (some_place : places ≠ 0) :
    ∃ ds es : List Nat, (fraction n places).text = ds.map Nat.digitChar ++ '.' :: es.map Nat.digitChar ∧
      (∀ d ∈ ds, d < 10) ∧ (∀ d ∈ es, d < 10) ∧ Canonical ds ∧ es.length = places ∧
      digitsValue (ds ++ es) = n := by
  have long := Decimal.lt_length_padded (digits n) places
  have small := Decimal.padded_digits (fun d hd => lt_ten_of_mem_digits (n := n) hd) places
  refine ⟨_, _, Decimal.pointed_eq (digits n) some_place,
    fun d hd => small d (List.mem_of_mem_take hd), fun d hd => small d (List.mem_of_mem_drop hd),
    canonical_whole n some_place, ?_, ?_⟩
  · rw [List.length_drop]
    omega
  · rw [List.take_append_drop, Decimal.padded, digitsValue_zeros, digitsValue_digits]

theorem Word.legible_fraction (n : Nat) {places : Nat} (some_place : places ≠ 0) :
    (fraction n places).Legible := by
  obtain ⟨ds, es, text, whole, part, canonical, length, -⟩ := fraction_text n some_place
  refine ⟨fun wanted has rest ends => ?_, ?_⟩
  · obtain ⟨take, drop⟩ := takeWhile_of_stop (isDigit_digitChars part)
      (ends.stop (by decide))
    have found := matchInteger_digits whole canonical ('.' :: (es.map Nat.digitChar ++ rest))
      (by simp; decide)
    have decimal : matchDecimal ((fraction n places).text ++ rest) =
        some ((fraction n places).text, rest) := by
      rw [text, List.append_assoc, List.cons_append, matchDecimal, found]
      simp only [take, drop]
      cases es with
      | nil =>
        rw [List.length_nil] at length
        exact absurd length.symm some_place
      | cons e es => rfl
    have here : wanted.has .decimal = true := has
    rw [matchToken, matchKind, if_pos here, decimal]
    rfl
  · rcases canonical with rfl | ⟨d, ds, rfl, -⟩
    · exact ⟨'0', _, text, by decide⟩
    · refine ⟨Nat.digitChar d, _, text, ?_⟩
      have first := whole d (by simp)
      interval_cases d <;> decide

/-- A number with a point denotes what it was written for. -/
theorem Word.decimalNumber_fraction (n : Nat) {places : Nat} (some_place : places ≠ 0) :
    decimalNumber (fraction n places).text = .finite false n (-places) := by
  obtain ⟨ds, es, text, whole, part, -, length, value⟩ := fraction_text n some_place
  have small : ∀ d ∈ ds ++ es, d < 10 := by
    intro d hd
    rcases List.mem_append.1 hd with hd | hd
    · exact whole d hd
    · exact part d hd
  rw [text, decimalNumber_point (isDigit_digitChars whole), ← List.map_append,
    digitsNumber_digitChars small, value, List.length_map, length]

/-! ### Quoted texts -/

def Word.character (c : Char) : Word :=
  ⟨.character, '\'' :: Text.escapeChar c ++ ['\'']⟩

def Word.string (s : String) : Word :=
  ⟨.string, '"' :: Text.escape s.toList ++ ['"']⟩

/-- What is written for a character is a piece inside either kind of quotes. -/
theorem Text.within_escapeChar {quote : Char} (either : quote = '\'' ∨ quote = '"') (c : Char) :
    Piece.Within quote (escapeChar c) := by
  unfold escapeChar
  split
  · exact Piece.within_letter (by decide)
  · rename_i line
    split
    · exact Piece.within_letter (by decide)
    · rename_i carriage
      split
      · rename_i escape
        rcases escape with rfl | rfl | rfl <;> exact Piece.within_letter (by decide)
      · rename_i plain
        simp only [not_or] at plain
        obtain ⟨single, double, slash⟩ := plain
        refine Piece.within_plain slash ?_ line carriage
        rcases either with rfl | rfl
        · exact single
        · exact double

theorem Word.legible_character (c : Char) : (character c).Legible := by
  have quoted : Text.IsCharacter (character c).text :=
    ⟨_, Text.within_escapeChar (.inl rfl) c, rfl⟩
  exact ⟨fun wanted has rest ends => matchToken_character has quoted rest, '\'', _, rfl, by decide⟩

theorem Word.legible_string (s : String) : (string s).Legible := by
  have quoted : Text.IsString (string s).text := by
    refine ⟨s.toList.map Text.escapeChar, fun p mem => ?_, rfl⟩
    obtain ⟨c, -, rfl⟩ := List.mem_map.1 mem
    exact Text.within_escapeChar (.inr rfl) c
  exact ⟨fun wanted has rest ends => matchToken_string has quoted rest, '"', _, rfl, by decide⟩

/-- Between the quotes stands what the escapes were written for. -/
theorem quotedText_escape (quote : Char) (cs : List Char) :
    quotedText (quote :: Text.escape cs ++ [quote]) = String.ofList cs := by
  rw [quotedText, List.cons_append, List.drop_one, List.tail_cons, List.dropLast_concat,
    Text.unescape_escape]

end PlcLang
