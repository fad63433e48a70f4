import PlcLang.Proofs.Parsing.Tokens
import PlcLang.Proofs.Parsing.Words

/-! Where a token ends: it is the start of the text it is found in, and it is found as well where
something else follows that does not run on from it. -/

namespace PlcLang

/-- What may stand in the place of what follows a token: white space, or what begins as that did. A
point could make another number of an integer. -/
def Follows (rest rest' : List Char) : Prop :=
  ∀ c ∈ rest'.head?, isLayout c = true ∨ c ≠ '.' ∧ rest.head? = some c

/-- A character that ends a token before `rest` ends it before `rest'` as well. -/
theorem Follows.stop {p : Char → Bool} {rest rest' : List Char} (follows : Follows rest rest')
    (stop : ∀ c ∈ rest.head?, p c = false) (layout : ∀ c, isLayout c = true → p c = false) :
    ∀ c ∈ rest'.head?, p c = false := by
  intro c head
  rcases follows c head with space | ⟨-, same⟩
  · exact layout c space
  · exact stop c same

theorem follows_of_layout {rest rest' : List Char}
    (layout : ∀ c ∈ rest'.head?, isLayout c = true) : Follows rest rest' :=
  fun c head => .inl (layout c head)

theorem isLayout_cases {c : Char} (h : isLayout c = true) :
    c = ' ' ∨ c = '\t' ∨ c = '\x0c' ∨ c = '\r' ∨ c = '\n' := by
  simpa [isLayout, or_assoc] using h

theorem not_digit_of_isLayout (c : Char) (h : isLayout c = true) : isDigit c = false := by
  rcases isLayout_cases h with rfl | rfl | rfl | rfl | rfl <;> decide

theorem not_part_of_isLayout (c : Char) (h : isLayout c = true) : isNamePart c = false := by
  rcases isLayout_cases h with rfl | rfl | rfl | rfl | rfl <;> decide

theorem head_dropWhile {p : Char → Bool} {cs : List Char} :
    ∀ c ∈ (cs.dropWhile p).head?, p c = false := by
  intro c head
  have first := List.head?_dropWhile_not p cs
  rw [Option.mem_def.1 head] at first
  simpa using first

/-! ### Fixed texts -/

theorem matchText_eq_some {k cs lexeme rest : List Char}
    (h : matchText k cs = some (lexeme, rest)) : lexeme = k ∧ cs = k ++ rest := by
  induction k generalizing cs lexeme with
  | nil =>
    cases h
    exact ⟨rfl, rfl⟩
  | cons c k ih =>
    cases cs with
    | nil => cases h
    | cons d cs =>
      rw [matchText] at h
      split at h
      · rename_i same
        obtain ⟨⟨inner, _⟩, found, pair⟩ := Option.map_eq_some_iff.1 h
        cases pair
        obtain ⟨rfl, rfl⟩ := ih found
        exact ⟨by rw [same], by rw [same]; rfl⟩
      · cases h

section

variable {α : Type} {textOf : α → String} {cs lexeme rest rest' : List Char} {l : List α} {a : α}

theorem matchFirst_eq_some (h : matchFirst textOf cs l = some (a, lexeme, rest)) :
    a ∈ l ∧ lexeme = (textOf a).toList ∧ cs = lexeme ++ rest := by
  induction l with
  | nil => cases h
  | cons b l ih =>
    rw [matchFirst] at h
    split at h
    · rename_i found
      cases h
      obtain ⟨same, split⟩ := matchText_eq_some found
      exact ⟨List.mem_cons_self, same, by rw [same]; exact split⟩
    · obtain ⟨mem, rest⟩ := ih h
      exact ⟨List.mem_cons_of_mem b mem, rest⟩

/-- The text that is found first is found first in another text that begins with it, if this begins
with no more of those looked for. -/
theorem matchFirst_again (h : matchFirst textOf cs l = some (a, lexeme, rest))
    (fewer : ∀ b ∈ l, (textOf b).toList <+: lexeme ++ rest' → (textOf b).toList <+: cs) :
    matchFirst textOf (lexeme ++ rest') l = some (a, lexeme, rest') := by
  induction l with
  | nil => cases h
  | cons b l ih =>
    rw [matchFirst] at h ⊢
    split at h
    · rename_i found
      cases h
      obtain ⟨rfl, -⟩ := matchText_eq_some found
      rw [matchText_append]
    · rename_i none
      have below : ¬ (textOf b).toList <+: lexeme ++ rest' := by
        intro here
        obtain ⟨more, same⟩ := fewer b List.mem_cons_self here
        rw [← same, matchText_append] at none
        cases none
      rw [matchText_eq_none below]
      exact ih h fun b' mem => fewer b' (List.mem_cons_of_mem b mem)

end

/-- No keyword begins with another. -/
theorem Keyword.eq_of_begins (k l : Keyword) (h : k.text.toList <+: l.text.toList) : k = l := by
  revert h
  cases k <;> cases l <;> decide

/-- The only keyword that a text begins with stays the only one, whatever follows it. -/
theorem Keyword.prefix_again {k b : Keyword} {rest rest' : List Char}
    (h : b.text.toList <+: k.text.toList ++ rest') :
    b.text.toList <+: k.text.toList ++ rest := by
  have same : b = k := by
    rcases List.prefix_or_prefix_of_prefix h (List.prefix_append k.text.toList rest') with below | below
    · exact eq_of_begins b k below
    · exact (eq_of_begins k b below).symm
  rw [same]
  exact List.prefix_append _ _

/-- Marks are short and have no white space in them. -/
theorem Symbol.text_short (s b : Symbol) :
    b.text.toList.length ≤ s.text.toList.length + 1 ∧
      ∀ c ∈ b.text.toList, isLayout c = false := by
  have visible : b.text.toList.all (fun c => !isLayout c) = true := by cases b <;> decide
  refine ⟨by cases s <;> cases b <;> decide, fun c mem => ?_⟩
  simpa using List.all_eq_true.1 visible c mem

/-- A mark that a text begins with is at most one character longer than the token found there. -/
theorem Symbol.prefix_again {s b : Symbol} {rest rest' : List Char} (follows : Follows rest rest')
    (h : b.text.toList <+: s.text.toList ++ rest') :
    b.text.toList <+: s.text.toList ++ rest := by
  obtain ⟨short, plain⟩ := text_short s b
  rcases List.prefix_or_prefix_of_prefix h (List.prefix_append s.text.toList rest') with below | below
  · exact below.trans (List.prefix_append _ _)
  · obtain ⟨more, same⟩ := below
    rw [← same] at h short plain ⊢
    have further : more <+: rest' := (List.prefix_append_right_inj _).1 h
    refine (List.prefix_append_right_inj _).2 ?_
    rw [List.length_append] at short
    cases more with
    | nil => exact List.nil_prefix
    | cons c more =>
      have single : more = [] := List.length_eq_zero_iff.1 (by
        rw [List.length_cons] at short
        omega)
      subst single
      obtain ⟨tail, rfl⟩ := further
      rcases follows c rfl with space | ⟨-, head⟩
      · rw [plain c (by simp)] at space
        cases space
      · obtain ⟨tail, rfl⟩ := List.head?_eq_some_iff.1 head
        exact ⟨tail, rfl⟩

/-! ### Names and numbers -/

section

variable {cs lexeme rest rest' : List Char}

theorem matchName_split (h : matchName cs = some (lexeme, rest)) :
    cs = lexeme ++ rest ∧ (∀ c ∈ rest.head?, isNamePart c = false) ∧
      ∃ c part, lexeme = c :: part ∧ isNameStart c = true ∧ ∀ d ∈ part, isNamePart d = true := by
  cases cs with
  | nil => cases h
  | cons c cs =>
    rw [matchName] at h
    split at h
    · rename_i start
      cases h
      refine ⟨?_, head_dropWhile, c, _, rfl, start, fun d hd => List.mem_takeWhile_imp hd⟩
      rw [List.cons_append, List.takeWhile_append_dropWhile]
    · cases h

theorem matchName_again (h : matchName cs = some (lexeme, rest))
    (stop : ∀ c ∈ rest'.head?, isNamePart c = false) :
    matchName (lexeme ++ rest') = some (lexeme, rest') := by
  obtain ⟨-, -, c, part, rfl, start, all⟩ := matchName_split h
  obtain ⟨take, drop⟩ := takeWhile_of_stop all stop
  rw [List.cons_append, matchName, if_pos start, take, drop]

theorem matchInteger_split (h : matchInteger cs = some (lexeme, rest)) : cs = lexeme ++ rest := by
  cases cs with
  | nil => cases h
  | cons c cs =>
    rw [matchInteger] at h
    split at h
    · rename_i zero
      cases h
      rw [zero]
      rfl
    · split at h
      · cases h
        rw [List.cons_append, List.takeWhile_append_dropWhile]
      · cases h

/-- A zero is a token of its own, and other digits end where no digit follows. -/
theorem matchInteger_again (h : matchInteger cs = some (lexeme, rest))
    (stop : (∀ c ∈ rest.head?, isDigit c = false) → ∀ c ∈ rest'.head?, isDigit c = false) :
    matchInteger (lexeme ++ rest') = some (lexeme, rest') := by
  cases cs with
  | nil => cases h
  | cons c cs =>
    rw [matchInteger] at h
    split at h
    · cases h
      rfl
    · rename_i nonzero
      split at h
      · rename_i digit
        cases h
        obtain ⟨take, drop⟩ := takeWhile_of_stop
          (fun d (hd : d ∈ cs.takeWhile isDigit) => List.mem_takeWhile_imp hd)
          (stop head_dropWhile)
        rw [List.cons_append, matchInteger, if_neg nonzero, if_pos digit, take, drop]
      · cases h

theorem matchDecimal_eq_some (h : matchDecimal cs = some (lexeme, rest)) :
    ∃ whole places, matchInteger cs = some (whole, '.' :: (places ++ rest)) ∧
      lexeme = whole ++ '.' :: places ∧ places ≠ [] ∧ (∀ c ∈ places, isDigit c = true) ∧
      ∀ c ∈ rest.head?, isDigit c = false := by
  rw [matchDecimal] at h
  split at h
  · rename_i whole after found
    split at h
    · cases h
    · rename_i some_place
      cases h
      refine ⟨whole, after.takeWhile isDigit, ?_, rfl, some_place,
        fun c hc => List.mem_takeWhile_imp hc, head_dropWhile⟩
      rw [List.takeWhile_append_dropWhile]
      exact found
  · cases h

theorem matchDecimal_split (h : matchDecimal cs = some (lexeme, rest)) : cs = lexeme ++ rest := by
  obtain ⟨whole, places, found, rfl, -⟩ := matchDecimal_eq_some h
  rw [matchInteger_split found, List.append_assoc, List.cons_append]

theorem matchDecimal_again (h : matchDecimal cs = some (lexeme, rest))
    (stop : ∀ c ∈ rest'.head?, isDigit c = false) :
    matchDecimal (lexeme ++ rest') = some (lexeme, rest') := by
  obtain ⟨whole, places, found, rfl, some_place, digits, -⟩ := matchDecimal_eq_some h
  obtain ⟨take, drop⟩ := takeWhile_of_stop digits stop
  have again : matchInteger (whole ++ '.' :: (places ++ rest')) =
      some (whole, '.' :: (places ++ rest')) := by
    refine matchInteger_again found fun _ c head => ?_
    cases head
    decide
  rw [List.append_assoc, List.cons_append, matchDecimal, again]
  simp only [take, drop]

/-- Before anything but a point, whole digits are no number with a point. -/
theorem matchDecimal_of_integer (h : matchInteger cs = some (lexeme, rest))
    (point : rest.head? ≠ some '.') : matchDecimal cs = none := by
  rw [matchDecimal, h]
  split
  · rename_i same
    cases same
    exact absurd rfl point
  · rfl

end

/-! ### Tokens -/

/-- What a token is made of: it does not begin with white space or a point, and stands on one
line. -/
structure IsLexeme (lexeme : List Char) : Prop where
  starts : ∃ c inner, lexeme = c :: inner ∧ isLayout c = false ∧ c ≠ '.'
  unbroken : ∀ c ∈ lexeme, c ≠ '\n' ∧ c ≠ '\r'

/-- Characters of names and of numbers make a lexeme. -/
theorem isLexeme_of_forall {p : Char → Bool} {lexeme : List Char} (some_char : lexeme ≠ [])
    (all : ∀ c ∈ lexeme, p c = true) (layout : ∀ c, isLayout c = true → p c = false)
    (point : ∀ inner, lexeme ≠ '.' :: inner) : IsLexeme lexeme := by
  have visible : ∀ c ∈ lexeme, isLayout c = false := by
    intro c hc
    cases space : isLayout c with
    | false => rfl
    | true => exact absurd (all c hc) (by simp [layout c space])
  obtain ⟨c, inner, rfl⟩ := List.exists_cons_of_ne_nil some_char
  refine ⟨⟨c, inner, rfl, visible c List.mem_cons_self, ?_⟩, fun d hd => ⟨?_, ?_⟩⟩
  · rintro rfl
    exact point inner rfl
  · rintro rfl
    exact absurd (visible _ hd) (by decide)
  · rintro rfl
    exact absurd (visible _ hd) (by decide)

theorem isNamePart_of_isNameStart {c : Char} (h : isNameStart c = true) (other : c ≠ '@') :
    isNamePart c = true := by
  simp only [isNameStart, Bool.or_eq_true, decide_eq_true_eq] at h
  simp [isNamePart, h.resolve_right other]

theorem isLexeme_name {c : Char} {part : List Char} (start : isNameStart c = true)
    (all : ∀ d ∈ part, isNamePart d = true) : IsLexeme (c :: part) := by
  obtain ⟨layout, -⟩ := of_isNameStart start
  refine isLexeme_of_forall (p := fun d => isNamePart d || d = '@') (List.cons_ne_nil c part) ?_ ?_ ?_
  · intro d hd
    rcases List.mem_cons.1 hd with rfl | hd
    · by_cases other : d = '@'
      · simp [other]
      · simp [isNamePart_of_isNameStart start other]
    · simp [all d hd]
  · intro d space
    rcases isLayout_cases space with rfl | rfl | rfl | rfl | rfl <;> decide
  · rintro inner same
    cases same
    exact absurd start (by decide)

theorem isLexeme_integer {cs lexeme rest : List Char} (h : matchInteger cs = some (lexeme, rest)) :
    IsLexeme lexeme := by
  have digits := isDigit_of_matchInteger h
  refine isLexeme_of_forall (ne_nil_of_matchInteger h) digits not_digit_of_isLayout ?_
  rintro inner rfl
  exact absurd (digits '.' List.mem_cons_self) (by decide)

theorem isLexeme_decimal {cs lexeme rest : List Char} (h : matchDecimal cs = some (lexeme, rest)) :
    IsLexeme lexeme := by
  obtain ⟨whole, places, found, rfl, -, digits, -⟩ := matchDecimal_eq_some h
  obtain ⟨⟨c, inner, rfl, layout, point⟩, unbroken⟩ := isLexeme_integer found
  refine ⟨⟨c, inner ++ '.' :: places, rfl, layout, point⟩, fun d hd => ?_⟩
  rcases List.mem_append.1 hd with hd | hd
  · exact unbroken d hd
  · rcases List.mem_cons.1 hd with rfl | hd
    · decide
    · refine ⟨?_, ?_⟩ <;>
      · rintro rfl
        exact absurd (digits _ hd) (by decide)

theorem isLexeme_character {lexeme : List Char} (h : Text.IsCharacter lexeme) :
    IsLexeme lexeme := by
  refine ⟨?_, h.unbroken⟩
  obtain ⟨p, -, rfl⟩ := h
  exact ⟨'\'', _, rfl, by decide, by decide⟩

theorem isLexeme_string {lexeme : List Char} (h : Text.IsString lexeme) : IsLexeme lexeme := by
  refine ⟨?_, h.unbroken⟩
  obtain ⟨ps, -, rfl⟩ := h
  exact ⟨'"', _, rfl, by decide, by decide⟩

theorem isLexeme_symbol (s : Symbol) : IsLexeme s.text.toList := by
  have marks : ∀ s : Symbol, s.text.toList.all (fun c => c ≠ '\n' ∧ c ≠ '\r') = true ∧
      s.text.toList.head? ≠ some '.' := by
    intro s
    cases s <;> decide
  obtain ⟨c, cs, text, -, -, -, -, layout, -⟩ := s.text_head
  refine ⟨⟨c, cs, text, layout, ?_⟩, fun d hd => ?_⟩
  · rintro rfl
    exact (marks s).2 (by rw [text]; rfl)
  · simpa using List.all_eq_true.1 (marks s).1 d hd

section

variable {w : Wanted} {kind : Terminal} {cs lexeme rest rest' : List Char}

/-- A word is found again where no name runs on. -/
theorem matchWord_again (h : matchWord w cs = some (kind, lexeme, rest)) :
    cs = lexeme ++ rest ∧
      (∃ c part, lexeme = c :: part ∧ isNameStart c = true ∧ ∀ d ∈ part, isNamePart d = true) ∧
      ∀ rest', Follows rest rest' →
        matchWord w (lexeme ++ rest') = some (kind, lexeme, rest') := by
  rw [matchWord] at h
  split at h
  · rename_i named
    split at h
    · cases h
    · rename_i l r found
      obtain ⟨split, ends, form⟩ := matchName_split found
      have again := fun rest' (follows : Follows r rest') =>
        matchName_again found (follows.stop ends not_part_of_isLayout)
      split at h
      · rename_i k keyword
        cases h
        refine ⟨split, form, fun rest' follows => ?_⟩
        rw [matchWord, if_pos named, again rest' follows]
        simp only [keyword]
      · rename_i none
        cases h
        refine ⟨split, form, fun rest' follows => ?_⟩
        rw [matchWord, if_pos named, again rest' follows]
        simp only [none]
  · rename_i unnamed
    obtain ⟨⟨k, l, r⟩, found, same⟩ := Option.map_eq_some_iff.1 h
    cases same
    obtain ⟨-, text, split⟩ := matchFirst_eq_some found
    obtain ⟨c, part, head, -, -, -, start, -, all⟩ := k.text_head
    refine ⟨split, ⟨c, part, text.trans head, start, all⟩, fun rest' _ => ?_⟩
    have again : matchFirst Keyword.text (lexeme ++ rest') w.keywords = some (k, lexeme, rest') := by
      refine matchFirst_again found fun b _ below => ?_
      rw [split]
      rw [text] at below ⊢
      exact Keyword.prefix_again below
    rw [matchWord, if_neg unnamed, again]
    rfl

/-- A token is the start of the text it is found in. -/
theorem matchToken_split (h : matchToken w cs = some (kind, lexeme, rest)) :
    cs = lexeme ++ rest ∧ IsLexeme lexeme := by
  rw [matchToken] at h
  rcases of_orElse_eq_some h with h | h
  · obtain ⟨rfl, -, found⟩ := matchKind_eq_some h
    exact ⟨matchDecimal_split found, isLexeme_decimal found⟩
  rcases of_orElse_eq_some h with h | h
  · obtain ⟨rfl, -, found⟩ := matchKind_eq_some h
    exact ⟨matchInteger_split found, isLexeme_integer found⟩
  rcases of_orElse_eq_some h with h | h
  · obtain ⟨rfl, -, found⟩ := matchKind_eq_some h
    obtain ⟨quoted, split⟩ := matchCharacter_eq_some.1 found
    exact ⟨split, isLexeme_character quoted⟩
  rcases of_orElse_eq_some h with h | h
  · obtain ⟨rfl, -, found⟩ := matchKind_eq_some h
    obtain ⟨quoted, split⟩ := matchString_eq_some.1 found
    exact ⟨split, isLexeme_string quoted⟩
  rcases of_orElse_eq_some h with h | h
  · obtain ⟨split, ⟨c, part, rfl, start, all⟩, -⟩ := matchWord_again h
    exact ⟨split, isLexeme_name start all⟩
  · obtain ⟨⟨s, l, r⟩, found, same⟩ := Option.map_eq_some_iff.1 h
    cases same
    obtain ⟨-, text, split⟩ := matchFirst_eq_some found
    exact ⟨split, text ▸ isLexeme_symbol s⟩

/-- A token is found again where what follows it does not run on from it. -/
theorem matchToken_again (h : matchToken w cs = some (kind, lexeme, rest))
    (follows : Follows rest rest') :
    matchToken w (lexeme ++ rest') = some (kind, lexeme, rest') := by
  rw [matchToken] at h
  rcases of_orElse_eq_some h with h | h
  · obtain ⟨rfl, wanted, found⟩ := matchKind_eq_some h
    obtain ⟨_, _, _, _, _, _, ends⟩ := matchDecimal_eq_some found
    have again := matchDecimal_again found (follows.stop ends not_digit_of_isLayout)
    rw [matchToken, matchKind, if_pos wanted, again]
    rfl
  rcases of_orElse_eq_some h with h | h
  · obtain ⟨rfl, wanted, found⟩ := matchKind_eq_some h
    have again := matchInteger_again found fun ends => follows.stop ends not_digit_of_isLayout
    have point : rest'.head? ≠ some '.' := by
      intro head
      rcases follows '.' head with space | ⟨other, -⟩
      · exact absurd space (by decide)
      · exact other rfl
    rw [matchToken, matchKind_eq_none (matchDecimal_of_integer again point), matchKind,
      if_pos wanted, again]
    rfl
  rcases of_orElse_eq_some h with h | h
  · obtain ⟨rfl, wanted, found⟩ := matchKind_eq_some h
    exact matchToken_character wanted (matchCharacter_eq_some.1 found).1 rest'
  rcases of_orElse_eq_some h with h | h
  · obtain ⟨rfl, wanted, found⟩ := matchKind_eq_some h
    exact matchToken_string wanted (matchString_eq_some.1 found).1 rest'
  rcases of_orElse_eq_some h with h | h
  · obtain ⟨-, ⟨c, part, rfl, start, -⟩, again⟩ := matchWord_again h
    obtain ⟨-, digit, quote, quotes⟩ := of_isNameStart start
    have again := again rest' follows
    rw [List.cons_append] at again ⊢
    rw [matchToken_of_plain digit quote quotes, again]
    rfl
  · obtain ⟨⟨s, l, r⟩, found, same⟩ := Option.map_eq_some_iff.1 h
    cases same
    obtain ⟨-, text, split⟩ := matchFirst_eq_some found
    have again : matchFirst Symbol.text (lexeme ++ rest') w.symbols = some (s, lexeme, rest') := by
      refine matchFirst_again found fun b _ below => ?_
      rw [split]
      rw [text] at below ⊢
      exact Symbol.prefix_again follows below
    rw [text] at again ⊢
    rw [s.matchToken_text, again]
    rfl

/-! ### The kinds that are looked for -/

/-- Of two ways to find something the second is tried where the first fails. -/
theorem of_orElse_eq_none {β : Type} {a b : Option β} (h : (a <|> b) = none) :
    a = none ∧ b = none := by
  cases a with
  | none => exact ⟨rfl, h⟩
  | some x => cases h

/-- A kind that is looked for is not found only where its matcher finds nothing. -/
theorem matchKind_wanted_none {m : List Char → Match} (h : matchKind w kind m cs = none)
    (wanted : w.has kind = true) : m cs = none := by
  rw [matchKind, if_pos wanted] at h
  exact Option.map_eq_none_iff.1 h

/-- A fixed text that is looked for is found where the text begins with it. -/
theorem matchFirst_ne_none {α : Type} {textOf : α → String} {l : List α} {a : α} (mem : a ∈ l)
    (rest : List Char) : matchFirst textOf ((textOf a).toList ++ rest) l ≠ none := by
  induction l with
  | nil => cases mem
  | cons b l ih =>
    intro none
    rw [matchFirst] at none
    split at none
    · cases none
    · rename_i other
      rcases List.mem_cons.1 mem with rfl | mem
      · rw [matchText_append] at other
        cases other
      · exact ih mem none

/-- A token is of a kind that is looked for, and the text of a keyword or a mark is fixed. -/
theorem matchToken_kind (h : matchToken w cs = some (kind, lexeme, rest)) :
    w.has kind = true ∧
      match kind with
      | .keyword k => lexeme = k.text.toList
      | .symbol s => lexeme = s.text.toList
      | _ => True := by
  rw [matchToken] at h
  rcases of_orElse_eq_some h with h | h
  · obtain ⟨rfl, wanted, -⟩ := matchKind_eq_some h
    exact ⟨wanted, trivial⟩
  rcases of_orElse_eq_some h with h | h
  · obtain ⟨rfl, wanted, -⟩ := matchKind_eq_some h
    exact ⟨wanted, trivial⟩
  rcases of_orElse_eq_some h with h | h
  · obtain ⟨rfl, wanted, -⟩ := matchKind_eq_some h
    exact ⟨wanted, trivial⟩
  rcases of_orElse_eq_some h with h | h
  · obtain ⟨rfl, wanted, -⟩ := matchKind_eq_some h
    exact ⟨wanted, trivial⟩
  rcases of_orElse_eq_some h with h | h
  · rw [matchWord] at h
    split at h
    · rename_i named
      split at h
      · cases h
      · split at h
        · rename_i keyword
          cases h
          have mem := List.mem_filter.1 (List.mem_of_find?_eq_some keyword)
          have same := List.find?_some keyword
          exact ⟨mem.2, (eq_of_beq same).symm⟩
        · cases h
          exact ⟨named, trivial⟩
    · obtain ⟨⟨k, l, r⟩, found, same⟩ := Option.map_eq_some_iff.1 h
      cases same
      obtain ⟨mem, text, -⟩ := matchFirst_eq_some found
      exact ⟨(List.mem_filter.1 mem).2, text⟩
  · obtain ⟨⟨s, l, r⟩, found, same⟩ := Option.map_eq_some_iff.1 h
    cases same
    obtain ⟨mem, text, -⟩ := matchFirst_eq_some found
    exact ⟨(List.mem_filter.1 mem).2, text⟩

/-- Where a keyword stands that is looked for, a word is found. -/
theorem matchWord_ne_none {k : Keyword} (wanted : w.has (.keyword k) = true) (rest : List Char) :
    matchWord w (k.text.toList ++ rest) ≠ none := by
  intro none
  rw [matchWord] at none
  split at none
  · obtain ⟨c, part, text, -, -, -, start, -⟩ := k.text_head
    rw [text, List.cons_append, matchName, if_pos start] at none
    split at none
    · rename_i found
      cases found
    · split at none <;> cases none
  · have mem : k ∈ w.keywords := List.mem_filter.2 ⟨k.mem_all, wanted⟩
    exact matchFirst_ne_none mem rest (Option.map_eq_none_iff.1 none)

/-- Where a token of a kind stands that is looked for, a token is found. -/
theorem matchToken_ne_none {v : Wanted} (any : matchToken v cs = some (kind, lexeme, rest))
    (wanted : w.has kind = true) : matchToken w cs ≠ none := by
  intro none
  have found := matchToken_eq_some any
  have fixed := (matchToken_kind any).2
  obtain ⟨split, -⟩ := matchToken_split any
  rw [matchToken] at none
  obtain ⟨decimal, none⟩ := of_orElse_eq_none none
  obtain ⟨integer, none⟩ := of_orElse_eq_none none
  obtain ⟨character, none⟩ := of_orElse_eq_none none
  obtain ⟨string, none⟩ := of_orElse_eq_none none
  obtain ⟨word, symbol⟩ := of_orElse_eq_none none
  cases kind with
  | decimal => exact absurd found (by simp [matchKind_wanted_none decimal wanted])
  | integer => exact absurd found (by simp [matchKind_wanted_none integer wanted])
  | character => exact absurd found (by simp [matchKind_wanted_none character wanted])
  | string => exact absurd found (by simp [matchKind_wanted_none string wanted])
  | ident =>
    have name : matchName cs = some (lexeme, rest) := found
    rw [matchWord, if_pos wanted, name] at word
    simp only at word
    split at word <;> cases word
  | keyword k =>
    obtain rfl : lexeme = k.text.toList := fixed
    rw [split] at word
    exact matchWord_ne_none wanted rest word
  | symbol s =>
    obtain rfl : lexeme = s.text.toList := fixed
    rw [split] at symbol
    have mem : s ∈ w.symbols := List.mem_filter.2 ⟨s.mem_all, wanted⟩
    exact matchFirst_ne_none mem rest (Option.map_eq_none_iff.1 symbol)
  | finish => exact found

end

end PlcLang
