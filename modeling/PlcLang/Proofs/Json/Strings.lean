import Mathlib.Tactic.IntervalCases
import PlcLang.Json.Reader
import PlcLang.Json.Writer

/-! A string that is written in a document reads back. -/

namespace PlcLang.Json

/-- What stands for some characters between quotes. -/
def escaped (cs : List Char) : List Char :=
  cs.flatMap fun c => (escapeChar c).toList

theorem toList_writeString (s : String) :
    (writeString s).toList = '"' :: (escaped s.toList ++ ['"']) := by
  have each (t : String) (cs : List Char) :
      (cs.foldl (fun t c => t ++ escapeChar c) t).toList = t.toList ++ escaped cs := by
    induction cs generalizing t with
    | nil => simp [escaped]
    | cons c cs ih =>
      rw [List.foldl_cons, ih]
      simp [escaped]
  rw [writeString, String.toList_append, each]
  rfl

theorem toList_hex (width n : Nat) :
    (Text.hex width n).toList =
      List.replicate (width - (Nat.toDigits 16 n).length) '0' ++ Nat.toDigits 16 n := by
  simp [Text.hex]

/-- The four digits of a control character. -/
theorem readUnit_hex {n : Nat} (control : n < 0x20) (rest : List Char) :
    readUnit ((Text.hex 4 n).toList ++ rest) = some (n, rest) := by
  rw [toList_hex]
  interval_cases n <;> rfl

/-- The code of a control character is no half of a pair. -/
theorem readEscape_unit {n : Nat} {cs rest : List Char} (unit : readUnit cs = some (n, rest))
    (control : n < 0x20) : readEscape ('u' :: cs) = some (Char.ofNat n, rest) := by
  have whole : ofUnit n = Char.ofNat n := if_neg (by omega)
  have alone (low : Nat) : joinHalves n low = none := if_neg (by omega)
  simp only [readEscape, unit, bind, Option.bind]
  split
  · split
    · simp only [alone, whole]
    · rw [whole]
  · rw [whole]

/-- A character stands for itself, or it is escaped. -/
theorem escapeChar_cases (c : Char) :
    (∃ cs, (escapeChar c).toList = '\\' :: cs ∧ '\r' ∉ cs ∧
      ∀ rest, readEscape (cs ++ rest) = some (c, rest)) ∨
    (escapeChar c).toList = [c] ∧ c ≠ '"' ∧ c ≠ '\\' ∧ ¬ c.toNat < 0x20 := by
  unfold escapeChar
  split
  · subst c
    exact .inl ⟨['"'], rfl, by decide, fun _ => rfl⟩
  split
  · subst c
    exact .inl ⟨['\\'], rfl, by decide, fun _ => rfl⟩
  split
  · subst c
    exact .inl ⟨['b'], rfl, by decide, fun _ => rfl⟩
  split
  · subst c
    exact .inl ⟨['f'], rfl, by decide, fun _ => rfl⟩
  split
  · subst c
    exact .inl ⟨['n'], rfl, by decide, fun _ => rfl⟩
  split
  · subst c
    exact .inl ⟨['r'], rfl, by decide, fun _ => rfl⟩
  split
  · subst c
    exact .inl ⟨['t'], rfl, by decide, fun _ => rfl⟩
  split
  · rename_i control
    refine .inl ⟨'u' :: (Text.hex 4 c.toNat).toList, ?_, ?_, fun rest => ?_⟩
    · rw [String.toList_append]
      rfl
    · rw [toList_hex]
      generalize c.toNat = n at control
      interval_cases n <;> decide
    · have unit := readEscape_unit (readUnit_hex control rest) control
      rwa [Char.ofNat_toNat] at unit
  · rename_i quote backslash _ _ _ _ _ high
    exact .inr ⟨by simp, quote, backslash, high⟩

/-- A character is read from what stands for it. -/
theorem readString_escapeChar (fuel : Nat) (done : List Char) (c : Char) (rest : List Char) :
    readString (fuel + 1) done ((escapeChar c).toList ++ rest) =
      readString fuel (c :: done) rest := by
  rcases escapeChar_cases c with ⟨cs, stands, -, read⟩ | ⟨stands, quote, backslash, high⟩
  · rw [stands, List.cons_append, readString, if_neg (by decide), if_pos rfl, read]
  · rw [stands, List.singleton_append, readString, if_neg quote, if_neg backslash, if_neg high]

theorem length_escapeChar (c : Char) : 0 < (escapeChar c).toList.length := by
  rcases escapeChar_cases c with ⟨cs, stands, -⟩ | ⟨stands, -⟩ <;> simp [stands]

/-- A string is read from what was written for it, up to its closing quote. -/
theorem readString_escaped {fuel : Nat} {done cs rest : List Char}
    (enough : (escaped cs).length < fuel) :
    readString fuel done (escaped cs ++ '"' :: rest) =
      some (String.ofList (done.reverse ++ cs), rest) := by
  induction cs generalizing fuel done with
  | nil =>
    cases fuel with
    | zero => cases enough
    | succ fuel => simp [escaped, readString]
  | cons c cs ih =>
    have first : escaped (c :: cs) = (escapeChar c).toList ++ escaped cs := rfl
    have some := length_escapeChar c
    rw [first, List.length_append] at enough
    cases fuel with
    | zero => cases enough
    | succ fuel =>
      rw [first, List.append_assoc, readString_escapeChar, ih (by omega)]
      simp

/-- No line end is written inside a string. -/
theorem escaped_unbroken (cs : List Char) : '\r' ∉ escaped cs := by
  intro inside
  obtain ⟨c, -, inside⟩ := List.mem_flatMap.1 inside
  rcases escapeChar_cases c with ⟨cs, stands, unbroken, -⟩ | ⟨stands, -, -, high⟩
  · rw [stands, List.mem_cons] at inside
    rcases inside with h | h
    · cases h
    · exact unbroken h
  · rw [stands, List.mem_singleton] at inside
    subst inside
    exact high (by decide)

end PlcLang.Json
