import PlcLang.Proofs.Parsing.Invariant
import PlcLang.Proofs.Parsing.Tokens
import PlcLang.Proofs.Values.Range

/-! The names and the literals of a program that is parsed. -/

namespace PlcLang

/-- A program that is parsed is worded as tokens without a fault are. -/
theorem Program.shaped_of_parse {W : Wording} {text : String} {p : Program}
    (h : Program.parse text = .ok p)
    (fits : ∀ place (t : Token), t.Found place → t.fault? place = none → t.Fits W place) : p.Shaped W := by
  rw [Program.parse] at h
  split at h
  · cases h
  · rename_i q tokens read
    split at h
    · cases h
    · rename_i sound
      cases h
      refine Parser.readTokens_shaped read ⟨⟨by simp, by simp, by simp⟩, trivial⟩ ?_
      intro place t mem
      have none := List.findSome?_eq_none_iff.1 sound (place, t) mem
      exact fits place t (Parser.readTokens_found read place t mem) none

/-- The form of names: a letter or `@`, then letters, digits, `_` and `-`. Where no keyword is looked
for, one may be a name as well. -/
def HasNameForm (s : String) : Prop :=
  ∃ c cs, s.toList = c :: cs ∧ isNameStart c = true ∧ ∀ d ∈ cs, isNamePart d = true

/-- What a literal in a text may stand for: numbers are not too long to be shown and finite, and a
character is a single one. -/
def Literal.Lexical : Literal → Prop
  | .nil | .boolean _ | .string _ => True
  | .integer n => digitCount n.natAbs ≤ Integer.digitLimit
  | .decimal d => d.isFinite = true
  | .character content => ∃ c : Char, content = .string (String.ofList [c])
  | .foreign _ => False

/-- Names and literals as a text has them. -/
def Wording.lexical : Wording :=
  ⟨HasNameForm, Literal.Lexical⟩

theorem hasNameForm_of_matchName {cs lexeme rest : List Char}
    (h : matchName cs = some (lexeme, rest)) : HasNameForm (String.ofList lexeme) := by
  cases cs with
  | nil => cases h
  | cons c cs =>
    rw [matchName] at h
    split at h
    · rename_i start
      cases h
      exact ⟨c, _, String.toList_ofList, start, fun d hd => List.mem_takeWhile_imp hd⟩
    · cases h

/-- An integer that is not too long to be read is not too long to be written. -/
theorem digitCount_digitsNumber {place : Place} {t : Token} (found : t.Found place)
    (integer : t.kind = .integer) (sound : t.fault? place = none) :
    digitCount (digitsNumber t.text) ≤ Integer.digitLimit := by
  obtain ⟨cs, rest, found⟩ := found
  rw [integer] at found
  have small := digitsNumber_lt (isDigit_of_matchInteger (matchToken_eq_some found))
  have short : t.text.length ≤ Integer.digitLimit := by
    rw [Token.fault?, integer] at sound
    simp only at sound
    split at sound
    · cases sound
    · omega
  exact digitCount_le (by decide) (Nat.lt_of_lt_of_le small (tenTo_le_tenTo short))

/-- What stands between single quotes is one character. -/
theorem quotedText_of_matchCharacter {cs lexeme rest : List Char}
    (h : matchCharacter cs = some (lexeme, rest)) :
    ∃ c, quotedText lexeme = String.ofList [c] := by
  obtain ⟨c, value⟩ := (matchCharacter_eq_some.1 h).1.reads
  rw [Text.between] at value
  exact ⟨c, by rw [quotedText, value]⟩

theorem Decimal.isFinite_settle {ctx : Context} {negative : Bool} {c : Nat} {e : Int} {d : Decimal}
    (h : settle ctx negative c e = .ok d) : d.isFinite = true := by
  rcases settle_eq_ok h with ⟨-, rfl, -⟩ | ⟨-, rfl, -⟩ <;> rfl

/-- A minus sign leaves a finite number finite. -/
theorem Decimal.isFinite_neg {ctx : Context} {d d' : Decimal} (finite : d.isFinite = true)
    (h : d.neg ctx = .ok d') : d'.isFinite = true := by
  cases d with
  | finite negative c e =>
    rw [neg, round] at h
    split at h
    · cases h
      rfl
    · simp only at h
      split at h <;> exact isFinite_settle h
  | infinite negative => cases finite
  | nan negative signaling payload => cases finite

/-- A token without a fault has the form of names, or stands for a literal of the wording. -/
theorem Token.Found.fits {place : Place} {t : Token} (found : t.Found place)
    (sound : t.fault? place = none) : t.Fits .lexical place := by
  have literal : ∀ value, t.literal? = some value → value.Lexical := by
    intro value known
    obtain ⟨cs, rest, here⟩ := id found
    rw [Token.literal?] at known
    split at known
    case h_4 integer =>
      cases known
      exact digitCount_digitsNumber found integer sound
    case h_6 character =>
      cases known
      rw [character] at here
      obtain ⟨c, text⟩ := quotedText_of_matchCharacter (matchToken_eq_some here)
      exact ⟨c, congrArg Json.string text⟩
    case h_8 => cases known
    all_goals
      cases known
      first | exact trivial | rfl
  refine ⟨fun name => ?_, literal, fun _ value known => ?_⟩
  · obtain ⟨cs, rest, here⟩ := found
    rw [name] at here
    exact hasNameForm_of_matchName (matchToken_eq_some here)
  · rw [Token.negative?] at known
    split at known
    · rename_i n given
      cases known
      have short : digitCount n.natAbs ≤ Integer.digitLimit := literal _ given
      rwa [← Int.natAbs_neg] at short
    · rename_i d given
      cases known
      have finite : d.isFinite = true := literal _ given
      cases value : d.neg .sign with
      | ok d' => exact Decimal.isFinite_neg finite value
      | error signal =>
        cases d with
        | finite negative c e => rfl
        | _ => cases finite
    · cases known

/-- The names of a program that is parsed have the form of names, and its literals are those of the
wording. -/
theorem Program.lexical_of_parse {text : String} {p : Program}
    (h : Program.parse text = .ok p) : p.Shaped .lexical :=
  Program.shaped_of_parse h fun _ _ found sound => found.fits sound

end PlcLang
