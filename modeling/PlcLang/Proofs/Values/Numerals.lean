import PlcLang.Integer
import Mathlib.Data.List.TakeWhile
import Mathlib.Tactic.IntervalCases

/-! Numbers read back from their own texts. -/

namespace PlcLang

namespace Text

theorem digit?_digitChar {d : Nat} (h : d < 10) : digit? (Nat.digitChar d) = some d := by
  interval_cases d <;> decide +kernel

theorem digit?_point : digit? '.' = none := by
  decide +kernel

theorem digit?_exponent : digit? 'E' = none := by
  decide +kernel

theorem trim_of_no_space {isSpace : Char → Bool} {cs : List Char}
    (h : ∀ c ∈ cs, isSpace c = false) : trim isSpace cs = cs := by
  have drop : ∀ ds : List Char, (∀ c ∈ ds, isSpace c = false) → ds.dropWhile isSpace = ds := by
    intro ds hd
    cases ds with
    | nil => rfl
    | cons c rest => exact List.dropWhile_cons_of_neg (by simp [hd c (by simp)])
  rw [trim, drop cs h, drop cs.reverse (fun c hc => h c (List.mem_reverse.1 hc)),
    List.reverse_reverse]

end Text

theorem digitsValue_zeros (n : Nat) (ds : List Nat) :
    digitsValue (List.replicate n 0 ++ ds) = digitsValue ds := by
  induction n with
  | zero => rfl
  | succ n ih => simpa [digitsValue, List.replicate_succ] using ih

theorem digits_ne_nil (n : Nat) : digits n ≠ [] := by
  intro h
  have length := length_digits n
  have positive := digitCount_pos n
  rw [h, List.length_nil] at length
  omega

namespace Decimal

theorem takeDigits_digitChars {ds : List Nat} (hd : ∀ d ∈ ds, d < 10) (rest : List Char)
    (stop : ∀ c ∈ rest.head?, Text.digit? c = none) :
    takeDigits (ds.map Nat.digitChar ++ rest) = (ds, rest) := by
  induction ds with
  | nil =>
    cases rest with
    | nil => rfl
    | cons c rest => simp [takeDigits, stop c rfl]
  | cons d ds ih =>
    have more := ih fun e he => hd e (by simp [he])
    simp [takeDigits, Text.digit?_digitChar (hd d (by simp)), more]

/-- A character that a reader of numbers neither strips nor drops. -/
def Counts (c : Char) : Prop :=
  Text.isBlank c = false ∧ c ≠ '_'

instance (c : Char) : Decidable (Counts c) :=
  inferInstanceAs (Decidable (_ ∧ _))

theorem counts_digitChars {ds : List Nat} (hd : ∀ d ∈ ds, d < 10) :
    ∀ c ∈ ds.map Nat.digitChar, Counts c := by
  intro c hc
  obtain ⟨d, mem, rfl⟩ := List.mem_map.1 hc
  have small := hd d mem
  interval_cases d <;> decide

theorem signText_toList (negative : Bool) :
    (signText negative).toList = if negative then ['-'] else [] := by
  cases negative <;> rfl

/-- A signed text is read as its sign and the rest, if nothing in the rest is dropped or taken for
a second sign. -/
theorem ofText_signed {negative : Bool} {body : List Char} (counts : ∀ c ∈ body, Counts c)
    (unsigned : takeSign body = (false, body)) {d : Decimal}
    (read : readUnsigned negative body = some d) :
    ofText (signText negative ++ String.ofList body) = d.kept := by
  have all : ∀ c ∈ (signText negative).toList ++ body, Counts c := by
    intro c hc
    rcases List.mem_append.1 hc with hc | hc
    · rw [signText_toList] at hc
      cases negative with
      | false => cases hc
      | true => rw [List.mem_singleton.1 hc]; decide
    · exact counts c hc
  have kept : (Text.trim Text.isBlank ((signText negative).toList ++ body)).filter (· ≠ '_') =
      (signText negative).toList ++ body := by
    rw [Text.trim_of_no_space fun c hc => (all c hc).1]
    exact List.filter_eq_self.2 fun c hc => by simpa using (all c hc).2
  have sign : takeSign ((signText negative).toList ++ body) = (negative, body) := by
    cases negative with
    | false => exact unsigned
    | true => rfl
  rw [ofText, String.toList_append, String.toList_ofList, kept, sign]
  simp only [read]

theorem takeSign_digit {d : Nat} (h : d < 10) (rest : List Char) :
    takeSign (Nat.digitChar d :: rest) = (false, Nat.digitChar d :: rest) := by
  interval_cases d <;> rfl

/-- What begins with a digit is no word. -/
theorem readUnsigned_digit {d : Nat} (h : d < 10) (negative : Bool) (rest : List Char) :
    readUnsigned negative (Nat.digitChar d :: rest) =
      readFinite negative (Nat.digitChar d :: rest) := by
  interval_cases d <;> rfl

theorem readFinite_whole (negative : Bool) {ds : List Nat} (hd : ∀ d ∈ ds, d < 10)
    (some_digit : ds ≠ []) :
    readFinite negative (ds.map Nat.digitChar) = some (.finite negative (digitsValue ds) 0) := by
  have take := takeDigits_digitChars hd [] (by simp)
  rw [List.append_nil] at take
  simp [readFinite, take, readExponent, some_digit]

/-- Digits, a point and digits, with or without an exponent. -/
theorem readFinite_pointed (negative : Bool) {ds es : List Nat} {e : Int}
    (hd : ∀ d ∈ ds, d < 10) (he : ∀ d ∈ es, d < 10) (some_digit : ds ≠ []) (rest : List Char)
    (stop : ∀ c ∈ rest.head?, Text.digit? c = none) (exponent : readExponent rest = some e) :
    readFinite negative (ds.map Nat.digitChar ++ '.' :: (es.map Nat.digitChar ++ rest)) =
      some (.finite negative (digitsValue (ds ++ es)) (e - es.length)) := by
  have whole := takeDigits_digitChars hd ('.' :: (es.map Nat.digitChar ++ rest))
    (by simp [Text.digit?_point])
  have part := takeDigits_digitChars he rest stop
  simp [readFinite, whole, part, exponent, some_digit]

/-- Digits and an exponent. -/
theorem readFinite_scaled (negative : Bool) {ds : List Nat} {rest : List Char} {e : Int}
    (hd : ∀ d ∈ ds, d < 10) (some_digit : ds ≠ []) (exponent : readExponent ('E' :: rest) = some e) :
    readFinite negative (ds.map Nat.digitChar ++ 'E' :: rest) =
      some (.finite negative (digitsValue ds) e) := by
  have whole := takeDigits_digitChars hd ('E' :: rest) (by simp [Text.digit?_exponent])
  simp [readFinite, whole, exponent, some_digit]

/-- What a scientific text has behind its digits. -/
theorem readExponent_written (e : Int) :
    readExponent ('E' :: (if e < 0 then '-' else '+') :: digitChars e.natAbs) = some e := by
  have value := digitsValue_digits e.natAbs
  have take := takeDigits_digitChars (fun d hd => lt_ten_of_mem_digits (n := e.natAbs) hd) []
    (by simp)
  have lower : Char.toLower 'E' = 'e' := by decide
  obtain ⟨d, ds, hds⟩ := List.exists_cons_of_ne_nil (digits_ne_nil e.natAbs)
  rw [hds] at value
  rw [hds, List.append_nil] at take
  rw [digitChars, hds]
  by_cases negative : e < 0
  · simp only [readExponent, lower, negative, ↓reduceIte, takeSign, take, value, Option.some.injEq]
    omega
  · simp only [readExponent, lower, negative, ↓reduceIte, takeSign, take, value, Bool.false_eq_true,
      Option.some.injEq]
    omega

/-! ### The texts of decimals -/

/-- The digits of a coefficient, with zeros in front up to one more than there are places. -/
def padded (ds : List Nat) (places : Nat) : List Nat :=
  List.replicate (places + 1 - ds.length) 0 ++ ds

theorem padded_digits {ds : List Nat} (hd : ∀ d ∈ ds, d < 10) (places : Nat) :
    ∀ d ∈ padded ds places, d < 10 := by
  intro d h
  rcases List.mem_append.1 h with h | h
  · rw [List.eq_of_mem_replicate h]
    decide
  · exact hd d h

theorem lt_length_padded (ds : List Nat) (places : Nat) : places < (padded ds places).length := by
  rw [padded, List.length_append, List.length_replicate]
  omega

/-- The parts of a plain text: the digits before the point and those behind it. -/
theorem pointed_eq (ds : List Nat) {places : Nat} (h : places ≠ 0) :
    pointed (ds.map Nat.digitChar) places =
      ((padded ds places).take ((padded ds places).length - places)).map Nat.digitChar ++
        '.' :: ((padded ds places).drop ((padded ds places).length - places)).map Nat.digitChar := by
  have pad : List.replicate (places + 1 - (ds.map Nat.digitChar).length) '0' ++
      ds.map Nat.digitChar = (padded ds places).map Nat.digitChar := by
    rw [padded, List.map_append, List.map_replicate, List.length_map]
    rfl
  rw [pointed, if_neg h, pad]
  simp only [List.length_map, List.map_take, List.map_drop]

/-- A plain text denotes the digits, scaled by the places. -/
theorem readFinite_plain (negative : Bool) {ds : List Nat} (hd : ∀ d ∈ ds, d < 10)
    (some_digit : ds ≠ []) (places : Nat) :
    readFinite negative (pointed (ds.map Nat.digitChar) places) =
      some (.finite negative (digitsValue ds) (-places)) := by
  by_cases h : places = 0
  · rw [pointed, if_pos h, readFinite_whole negative hd some_digit, h]
    rfl
  · have long := lt_length_padded ds places
    have small := padded_digits hd places
    have first : (padded ds places).take ((padded ds places).length - places) ≠ [] := by
      intro none
      have length := congrArg List.length none
      rw [List.length_take, List.length_nil] at length
      omega
    have read := readFinite_pointed negative
      (fun d hd => small d (List.mem_of_mem_take hd))
      (fun d (hd : d ∈ (padded ds places).drop ((padded ds places).length - places)) =>
        small d (List.mem_of_mem_drop hd))
      first [] (by simp) (show readExponent [] = some 0 from rfl)
    have count : (padded ds places).length - ((padded ds places).length - places) = places := by
      omega
    rw [pointed_eq ds h]
    rw [List.append_nil, List.take_append_drop, padded, digitsValue_zeros, ← padded,
      List.length_drop, count] at read
    rw [read]
    simp

/-- A scientific text denotes the digits, scaled so that the first has the exponent. -/
theorem readFinite_scientific (negative : Bool) {ds : List Nat} (hd : ∀ d ∈ ds, d < 10)
    (some_digit : ds ≠ []) (e : Int) :
    readFinite negative (scientific (ds.map Nat.digitChar) e) =
      some (.finite negative (digitsValue ds) (e - ds.length + 1)) := by
  obtain ⟨d, es, rfl⟩ := List.exists_cons_of_ne_nil some_digit
  have first : ∀ a ∈ [d], a < 10 := fun a ha => hd a (by simp_all)
  have others : ∀ a ∈ es, a < 10 := fun a ha => hd a (by simp [ha])
  have exponent := readExponent_written e
  cases es with
  | nil =>
    have read := readFinite_scaled negative first (by simp) exponent
    simpa [scientific] using read
  | cons d' es =>
    have read := readFinite_pointed negative first others (by simp) _ (by simp [Text.digit?_exponent])
      exponent
    simp only [scientific, List.map_cons, List.length_cons] at read ⊢
    simp only [List.take_succ_cons, List.take_zero, List.drop_succ_cons, List.drop_zero,
      show ¬ (List.map Nat.digitChar es).length + 1 + 1 ≤ 1 by omega, ↓reduceIte] at *
    simp only [List.map_nil, List.cons_append, List.nil_append] at read ⊢
    rw [read]
    simp
    omega

/-! The characters of both texts count. -/

theorem counts_pointed {ds : List Nat} (hd : ∀ d ∈ ds, d < 10) (places : Nat) :
    ∀ c ∈ pointed (ds.map Nat.digitChar) places, Counts c := by
  by_cases h : places = 0
  · rw [pointed, if_pos h]
    exact counts_digitChars hd
  · rw [pointed_eq ds h]
    have small := counts_digitChars (padded_digits hd places)
    intro c hc
    rcases List.mem_append.1 hc with hc | hc
    · rw [List.map_take] at hc
      exact small c (List.mem_of_mem_take hc)
    · rcases List.mem_cons.1 hc with rfl | hc
      · decide
      · rw [List.map_drop] at hc
        exact small c (List.mem_of_mem_drop hc)

theorem counts_scientific {ds : List Nat} (hd : ∀ d ∈ ds, d < 10) (e : Int) :
    ∀ c ∈ scientific (ds.map Nat.digitChar) e, Counts c := by
  have small := counts_digitChars hd
  have size := counts_digitChars fun d hd => lt_ten_of_mem_digits (n := e.natAbs) hd
  intro c hc
  rw [scientific, List.append_assoc] at hc
  rcases List.mem_append.1 hc with hc | hc
  · exact small c (List.mem_of_mem_take hc)
  · rcases List.mem_append.1 hc with hc | hc
    · split at hc
      · cases hc
      · rcases List.mem_cons.1 hc with rfl | hc
        · decide
        · exact small c (List.mem_of_mem_drop hc)
    · rcases List.mem_cons.1 hc with rfl | hc
      · decide
      · rcases List.mem_cons.1 hc with rfl | hc
        · split <;> decide
        · exact size c hc

/-- Both texts begin with a digit. -/
theorem begins_pointed {ds : List Nat} (hd : ∀ d ∈ ds, d < 10) (some_digit : ds ≠ [])
    (places : Nat) :
    ∃ d rest, d < 10 ∧ pointed (ds.map Nat.digitChar) places = Nat.digitChar d :: rest := by
  by_cases h : places = 0
  · obtain ⟨d, es, rfl⟩ := List.exists_cons_of_ne_nil some_digit
    exact ⟨d, es.map Nat.digitChar, hd d (by simp), by rw [pointed, if_pos h, List.map_cons]⟩
  · have long := lt_length_padded ds places
    have small := padded_digits hd places
    rw [pointed_eq ds h]
    generalize padded ds places = all at long small
    obtain ⟨d, es, rfl⟩ := List.exists_cons_of_length_pos (Nat.zero_lt_of_lt long)
    obtain ⟨n, hn⟩ : ∃ n, (d :: es).length - places = n + 1 := ⟨es.length - places, by
      rw [List.length_cons] at long ⊢
      omega⟩
    rw [hn, List.take_succ_cons, List.map_cons]
    exact ⟨d, _, small d (by simp), rfl⟩

theorem begins_scientific {ds : List Nat} (hd : ∀ d ∈ ds, d < 10) (some_digit : ds ≠ []) (e : Int) :
    ∃ d rest, d < 10 ∧ scientific (ds.map Nat.digitChar) e = Nat.digitChar d :: rest := by
  obtain ⟨d, es, rfl⟩ := List.exists_cons_of_ne_nil some_digit
  exact ⟨d, _, hd d (by simp), rfl⟩

/-- The text of a finite number without its sign. -/
theorem readUnsigned_finite (negative : Bool) (c : Nat) (e : Int) :
    ∃ body : List Char, (Decimal.finite negative c e).toText = signText negative ++ String.ofList body ∧
      (∀ c ∈ body, Counts c) ∧ takeSign body = (false, body) ∧
      readUnsigned negative body = some (.finite negative c e) := by
  have small : ∀ d ∈ digits c, d < 10 := fun d hd => lt_ten_of_mem_digits hd
  have nonempty := digits_ne_nil c
  have value := digitsValue_digits c
  refine ⟨_, rfl, ?_⟩
  rw [digitChars, List.length_map]
  split
  · rename_i plain
    obtain ⟨d, rest, hd, starts⟩ := begins_pointed small nonempty (-e).toNat
    have read := readFinite_plain negative small nonempty (-e).toNat
    refine ⟨counts_pointed small _, ?_, ?_⟩
    · rw [starts]
      exact takeSign_digit hd rest
    · rw [starts, readUnsigned_digit hd, ← starts, read, value]
      rw [Int.toNat_of_nonneg (by omega), Int.neg_neg]
  · obtain ⟨d, rest, hd, starts⟩ := begins_scientific small nonempty (e + (digits c).length - 1)
    have read := readFinite_scientific negative small nonempty (e + (digits c).length - 1)
    refine ⟨counts_scientific small _, ?_, ?_⟩
    · rw [starts]
      exact takeSign_digit hd rest
    · rw [starts, readUnsigned_digit hd, ← starts, read, value]
      congr 2
      omega

theorem readNaN_digits (negative signaling : Bool) {ds : List Nat} (hd : ∀ d ∈ ds, d < 10) :
    readNaN negative signaling (ds.map Nat.digitChar) =
      some (.nan negative signaling (digitsValue ds)) := by
  have take := takeDigits_digitChars hd [] (by simp)
  rw [List.append_nil] at take
  rw [readNaN, take]

theorem toLower_digitChars {ds : List Nat} (hd : ∀ d ∈ ds, d < 10) :
    (ds.map Nat.digitChar).map Char.toLower = ds.map Nat.digitChar := by
  rw [List.map_map]
  apply List.map_congr_left
  intro d mem
  have small := hd d mem
  interval_cases d <;> rfl

/-- The digits that the text of a NaN shows. -/
def payloadDigits (payload : Nat) : List Nat :=
  if payload = 0 then [] else digits payload

theorem readUnsigned_nan (negative signaling : Bool) (payload : Nat) :
    ∃ body : List Char,
      (Decimal.nan negative signaling payload).toText = signText negative ++ String.ofList body ∧
      (∀ c ∈ body, Counts c) ∧ takeSign body = (false, body) ∧
      readUnsigned negative body = some (.nan negative signaling payload) := by
  have small : ∀ d ∈ payloadDigits payload, d < 10 := by
    intro d h
    rw [payloadDigits] at h
    split at h
    · cases h
    · exact lt_ten_of_mem_digits h
  have value : digitsValue (payloadDigits payload) = payload := by
    rw [payloadDigits]
    split
    · rename_i zero
      rw [zero]
      rfl
    · exact digitsValue_digits payload
  have shown : (if payload = 0 then [] else digitChars payload) =
      (payloadDigits payload).map Nat.digitChar := by
    rw [payloadDigits, digitChars]
    split <;> rfl
  have read := readNaN_digits negative signaling small
  rw [value] at read
  have counts := counts_digitChars small
  have lower := toLower_digitChars small
  rw [toText, shown]
  cases signaling with
  | false =>
    refine ⟨'N' :: 'a' :: 'N' :: (payloadDigits payload).map Nat.digitChar, ?_, ?_, rfl, ?_⟩
    · rw [String.append_assoc]
      congr 1
      apply String.toList_injective
      simp
    · intro c hc
      simp only [List.mem_cons] at hc
      rcases hc with rfl | rfl | rfl | hc
      all_goals first | decide | exact counts c hc
    · rw [readUnsigned, List.map_cons, List.map_cons, List.map_cons, lower]
      exact read
  | true =>
    refine ⟨'s' :: 'N' :: 'a' :: 'N' :: (payloadDigits payload).map Nat.digitChar, ?_, ?_, rfl, ?_⟩
    · rw [String.append_assoc]
      congr 1
      apply String.toList_injective
      simp
    · intro c hc
      simp only [List.mem_cons] at hc
      rcases hc with rfl | rfl | rfl | rfl | hc
      all_goals first | decide | exact counts c hc
    · rw [readUnsigned, List.map_cons, List.map_cons, List.map_cons, List.map_cons, lower]
      exact read

/-- A decimal in range is what its text is read as: sign, digits and exponent come back. -/
theorem ofText_toText {d : Decimal} (range : d.inRange = true) : ofText d.toText = .ok d := by
  have keeps : d.kept = .ok d := if_pos range
  cases d with
  | finite negative c e =>
    obtain ⟨body, text, counts, unsigned, read⟩ := readUnsigned_finite negative c e
    rw [text, ofText_signed counts unsigned read, keeps]
  | infinite negative =>
    have letters : "Infinity".toList.all (fun c => decide (Counts c)) = true := by decide
    have counts : ∀ c ∈ "Infinity".toList, Counts c :=
      fun c mem => of_decide_eq_true (List.all_eq_true.1 letters c mem)
    rw [toText, ← String.ofList_toList (s := "Infinity"), ofText_signed counts rfl rfl, keeps]
  | nan negative signaling payload =>
    obtain ⟨body, text, counts, unsigned, read⟩ := readUnsigned_nan negative signaling payload
    rw [text, ofText_signed counts unsigned read, keeps]

end Decimal

namespace Integer

/-- The text of a natural number has the digits that denote it, no more than it needs. -/
theorem toDigits_digits (n : Nat) :
    ∃ ds : List Nat, Nat.toDigits 10 n = ds.map Nat.digitChar ∧ (∀ d ∈ ds, d < 10) ∧ ds ≠ [] ∧
      digitsValue ds = n ∧ ds.length ≤ digitCount n := by
  have short : (Nat.toDigits 10 n).length ≤ digitCount n :=
    (Nat.length_toDigits_le_iff (by decide) (digitCount_pos n)).2 (lt_tenTo_digitCount n)
  suffices h : ∃ ds : List Nat, Nat.toDigits 10 n = ds.map Nat.digitChar ∧ (∀ d ∈ ds, d < 10) ∧
      ds ≠ [] ∧ digitsValue ds = n by
    obtain ⟨ds, same, small, nonempty, value⟩ := h
    rw [same, List.length_map] at short
    exact ⟨ds, same, small, nonempty, value, short⟩
  clear short
  induction n using Nat.strong_induction_on with
  | _ n ih =>
    by_cases single : n < 10
    · exact ⟨[n], Nat.toDigits_of_lt_base single, by simpa using single, by simp, by
        simp [digitsValue]⟩
    · obtain ⟨ds, same, small, -, value⟩ := ih (n / 10) (by omega)
      have last : n % 10 < 10 := Nat.mod_lt n (by decide)
      refine ⟨ds ++ [n % 10], ?_, ?_, by simp, ?_⟩
      · rw [Nat.toDigits_of_base_le (by decide) (by omega), same, List.map_append]
        rfl
      · intro d hd
        rcases List.mem_append.1 hd with hd | hd
        · exact small d hd
        · rw [List.mem_singleton.1 hd]
          exact last
      · rw [digitsValue, List.foldl_append, ← digitsValue, value]
        exact Nat.div_add_mod' n 10

theorem digitsOf?_digitChars {ds : List Nat} (hd : ∀ d ∈ ds, d < 10) (nonempty : ds ≠ []) :
    digitsOf? (ds.map Nat.digitChar) = some ds := by
  induction ds with
  | nil => exact absurd rfl nonempty
  | cons d ds ih =>
    have first := Text.digit?_digitChar (hd d (by simp))
    cases ds with
    | nil => simp [digitsOf?, first]
    | cons d' ds =>
      have rest := ih (fun e he => hd e (by simp_all)) (by simp)
      have second : Nat.digitChar d' ≠ '_' :=
        (Decimal.counts_digitChars hd (Nat.digitChar d') (by simp)).2
      rw [List.map_cons, digitsOf?.eq_4 _ _ (by simp) (by
        intro cs h
        rw [List.map_cons] at h
        exact second (List.cons_eq_cons.1 h).1), first, rest]

/-- Digits are parts of an integer. -/
theorem read_digits {ds : List Nat} (hd : ∀ d ∈ ds, d < 10) :
    (ds.map Nat.digitChar).takeWhile (fun c => c = '_' || (Text.digit? c).isSome) =
        ds.map Nat.digitChar ∧
      (ds.map Nat.digitChar).dropWhile (fun c => c = '_' || (Text.digit? c).isSome) = [] := by
  have part : ∀ c ∈ ds.map Nat.digitChar, (c = '_' || (Text.digit? c).isSome) = true := by
    intro c hc
    obtain ⟨d, mem, rfl⟩ := List.mem_map.1 hc
    simp [Text.digit?_digitChar (hd d mem)]
  exact ⟨List.takeWhile_eq_self_iff.2 part, List.dropWhile_eq_nil_iff.2 part⟩

/-- A sign and digits are read as the number they denote, up to the limit. -/
theorem ofText_signed (negative : Bool) {ds : List Nat} (hd : ∀ d ∈ ds, d < 10)
    (nonempty : ds ≠ []) (short : ds.length ≤ digitLimit) :
    ofText (Decimal.signText negative ++ String.ofList (ds.map Nat.digitChar)) =
      .ok (Decimal.signed negative (digitsValue ds)) := by
  obtain ⟨d, es, rfl⟩ := List.exists_cons_of_ne_nil nonempty
  have small := hd d (by simp)
  have space : ∀ c ∈ ((d :: es).map Nat.digitChar).head?, isSpace c = false := by
    intro c hc
    rw [List.map_cons, List.head?_cons, Option.mem_some_iff] at hc
    subst hc
    interval_cases d <;> decide
  have start : ((Decimal.signText negative ++ String.ofList ((d :: es).map Nat.digitChar)).toList).dropWhile
      isSpace = (Decimal.signText negative).toList ++ (d :: es).map Nat.digitChar := by
    rw [String.toList_append, String.toList_ofList, Decimal.signText_toList]
    cases negative with
    | false => exact List.dropWhile_cons_of_neg (by simpa using space)
    | true => exact List.dropWhile_cons_of_neg (by decide)
  have sign : Decimal.takeSign ((Decimal.signText negative).toList ++ (d :: es).map Nat.digitChar) =
      (negative, (d :: es).map Nat.digitChar) := by
    rw [Decimal.signText_toList]
    cases negative with
    | false => exact Decimal.takeSign_digit small _
    | true => rfl
  obtain ⟨take, drop⟩ := read_digits hd
  rw [ofText, start, sign]
  simp only [take, drop, digitsOf?_digitChars hd nonempty, List.all_nil, ↓reduceIte]
  rw [if_neg (Nat.not_lt.2 short)]

/-- An integer that has a text is what that text is read as. -/
theorem ofText_text? {n : Int} {text : String} (h : text? n = some text) : ofText text = .ok n := by
  rw [text?] at h
  split at h
  · rename_i short
    cases h
    obtain ⟨ds, same, small, nonempty, value, length⟩ := toDigits_digits n.natAbs
    have text : toString n = Decimal.signText (n < 0) ++ String.ofList (ds.map Nat.digitChar) := by
      rw [← same, ← Nat.toString_eq_ofList_toDigits]
      cases n with
      | ofNat m => exact (String.empty_append).symm
      | negSucc m =>
        rw [decide_eq_true (Int.negSucc_lt_zero m)]
        rfl
    rw [text, ofText_signed _ small nonempty (Nat.le_trans length short), value]
    congr 1
    by_cases negative : n < 0
    · rw [Decimal.signed, if_pos (decide_eq_true negative)]
      omega
    · rw [Decimal.signed, if_neg (by simpa using negative)]
      omega
  · cases h

end Integer

end PlcLang
