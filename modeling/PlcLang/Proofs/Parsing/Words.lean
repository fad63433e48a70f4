import PlcLang.Proofs.Parsing.Tokens

/-! Words, as a program is written with single spaces between them. -/

namespace PlcLang

/-- A token wherever it stands. -/
structure Word where
  kind : Terminal
  text : List Char

namespace Word

def token (w : Word) (position : Position) : Token :=
  ⟨w.kind, w.text, position⟩

def ident (s : String) : Word :=
  ⟨.ident, s.toList⟩

def key (k : Keyword) : Word :=
  ⟨.keyword k, k.text.toList⟩

def mark (s : Symbol) : Word :=
  ⟨.symbol s, s.text.toList⟩

/-- The words, each after a space. -/
def following (ws : List Word) : List Char :=
  ws.flatMap fun w => ' ' :: w.text

/-- The words with a space between any two. -/
def spaced : List Word → List Char
  | [] => []
  | w :: rest => w.text ++ following rest

/-- What follows a word: nothing, or a space. -/
def Ends (rest : List Char) : Prop :=
  ∀ c ∈ rest.head?, c = ' '

/-- A word that is read as itself wherever its kind is looked for. -/
structure Legible (w : Word) : Prop where
  found : ∀ wanted : Wanted, wanted.has w.kind = true → ∀ rest, Ends rest →
    matchToken wanted (w.text ++ rest) = some (w.kind, w.text, rest)
  starts : ∃ c cs, w.text = c :: cs ∧ isLayout c = false

end Word

open Word

/-! ### Finding -/

theorem matchText_append (k rest : List Char) : matchText k (k ++ rest) = some (k, rest) := by
  induction k with
  | nil => rfl
  | cons c k ih => simp [matchText, ih]

theorem matchText_eq_none {k cs : List Char} (h : ¬ k <+: cs) : matchText k cs = none := by
  induction k generalizing cs with
  | nil => exact absurd (List.nil_prefix) h
  | cons c k ih =>
    cases cs with
    | nil => rfl
    | cons d cs =>
      rw [matchText]
      split
      · rename_i same
        rw [ih fun below => h (by rw [same]; exact List.prefix_cons_inj d |>.2 below)]
        rfl
      · rfl

/-- Of the texts that are looked for, the first that the words begin with is found. -/
theorem matchFirst_eq {α : Type} {textOf : α → String} {l : List α} {a : α} {rest : List Char}
    (first : l.find? (fun b => decide ((textOf b).toList <+: (textOf a).toList ++ rest)) = some a) :
    matchFirst textOf ((textOf a).toList ++ rest) l = some (a, (textOf a).toList, rest) := by
  induction l with
  | nil => cases first
  | cons b l ih =>
    rw [List.find?_cons] at first
    split at first
    · cases first
      rw [matchFirst, matchText_append]
    · rename_i no
      rw [matchFirst, matchText_eq_none (by simpa using no)]
      exact ih first

/-- What is found first among more is found first among fewer, if it is one of these. -/
theorem find?_of_narrower {α : Type} {p q : α → Bool} {l : List α} {a : α}
    (first : l.find? q = some a) (narrower : ∀ b, p b = true → q b = true) (here : p a = true) :
    l.find? p = some a := by
  induction l with
  | nil => cases first
  | cons b l ih =>
    rw [List.find?_cons] at first ⊢
    split at first
    · cases first
      rw [here]
    · rename_i no
      have other : p b = false := by
        cases h : p b with
        | false => rfl
        | true => rw [narrower b h] at no; cases no
      rw [other]
      exact ih first

/-- Without a space in it, nothing that begins what a word begins goes beyond the word. -/
theorem prefix_of_ends {k text rest : List Char} (plain : ' ' ∉ k) (ends : Ends rest)
    (h : k <+: text ++ rest) : k <+: text := by
  induction text generalizing k with
  | nil =>
    cases k with
    | nil => exact List.nil_prefix
    | cons c k =>
      obtain ⟨more, same⟩ := h
      have space := ends c (by rw [← List.nil_append rest, ← same]; rfl)
      exact absurd (by simp [space]) plain
  | cons d text ih =>
    cases k with
    | nil => exact List.nil_prefix
    | cons c k =>
      rw [List.cons_append, List.cons_prefix_cons] at h
      obtain ⟨rfl, below⟩ := h
      exact (List.prefix_cons_inj c).2 (ih (fun mem => plain (by simp [mem])) below)

/-- A fixed text is the first found in what begins with it, if it is the first of all that it begins
with itself. -/
theorem matchFirst_of_mem {α : Type} {textOf : α → String} {all : List α} (wanted : α → Bool)
    {a : α} {rest : List Char}
    (first : all.find? (fun b => decide ((textOf b).toList <+: (textOf a).toList)) = some a)
    (plain : ∀ b, ' ' ∉ (textOf b).toList) (here : wanted a = true) (ends : Ends rest) :
    matchFirst textOf ((textOf a).toList ++ rest) (all.filter wanted) =
      some (a, (textOf a).toList, rest) := by
  apply matchFirst_eq
  rw [List.find?_filter]
  apply find?_of_narrower first
  · intro b hb
    simp only [decide_eq_true_eq] at hb ⊢
    exact prefix_of_ends (plain b) ends hb.2
  · simp [here]

theorem matchFirst_eq_none {α : Type} {textOf : α → String} {cs : List Char} {l : List α}
    (h : ∀ b ∈ l, ¬ (textOf b).toList <+: cs) : matchFirst textOf cs l = none := by
  induction l with
  | nil => rfl
  | cons b l ih =>
    rw [matchFirst, matchText_eq_none (h b (by simp))]
    exact ih fun b' hb' => h b' (by simp [hb'])

/-! ### By the first character -/

section

variable {w : Wanted} {c : Char} {cs : List Char}

theorem matchInteger_of_not_digit (h : isDigit c = false) : matchInteger (c :: cs) = none := by
  have zero : c ≠ '0' := by
    rintro rfl
    cases h
  rw [matchInteger, if_neg zero, h]
  rfl

theorem matchDecimal_of_not_digit (h : isDigit c = false) : matchDecimal (c :: cs) = none := by
  rw [matchDecimal, matchInteger_of_not_digit h]

theorem matchCharacter_of_ne (h : c ≠ '\'') : matchCharacter (c :: cs) = none := by
  unfold matchCharacter
  split
  · rename_i same
    exact absurd (List.cons_eq_cons.1 same).1 h
  · rfl

theorem matchString_of_ne (h : c ≠ '"') : matchString (c :: cs) = none := by
  unfold matchString
  split
  · rename_i same
    exact absurd (List.cons_eq_cons.1 same).1 h
  · rfl

theorem matchKind_eq_none {kind : Terminal} {m : List Char → Match} (h : m cs = none) :
    matchKind w kind m cs = none := by
  rw [matchKind, h]
  split <;> rfl

/-- What begins with neither a digit nor a quote is no literal but for the words. -/
theorem matchToken_of_plain (digit : isDigit c = false) (quote : c ≠ '\'') (quotes : c ≠ '"') :
    matchToken w (c :: cs) =
      (matchWord w (c :: cs) <|>
        (matchFirst Symbol.text (c :: cs) w.symbols).map
          fun (s, lexeme, rest) => (.symbol s, lexeme, rest)) := by
  rw [matchToken, matchKind_eq_none (matchDecimal_of_not_digit digit),
    matchKind_eq_none (matchInteger_of_not_digit digit),
    matchKind_eq_none (matchCharacter_of_ne quote), matchKind_eq_none (matchString_of_ne quotes)]
  rfl

/-- A text in double quotes is one token wherever strings are looked for. -/
theorem matchToken_string {x : List Char} (wanted : w.has .string = true) (h : Text.IsString x)
    (rest : List Char) : matchToken w (x ++ rest) = some (.string, x, rest) := by
  have found : matchString (x ++ rest) = some (x, rest) := matchString_eq_some.2 ⟨h, rfl⟩
  obtain ⟨ps, -, rfl⟩ := h
  rw [List.cons_append, List.cons_append] at *
  rw [matchToken, matchKind_eq_none (matchDecimal_of_not_digit (by decide)),
    matchKind_eq_none (matchInteger_of_not_digit (by decide)),
    matchKind_eq_none (matchCharacter_of_ne (by decide)), matchKind, if_pos wanted, found]
  rfl

theorem matchToken_character {x : List Char} (wanted : w.has .character = true)
    (h : Text.IsCharacter x) (rest : List Char) :
    matchToken w (x ++ rest) = some (.character, x, rest) := by
  have found : matchCharacter (x ++ rest) = some (x, rest) := matchCharacter_eq_some.2 ⟨h, rfl⟩
  obtain ⟨p, -, rfl⟩ := h
  rw [List.cons_append, List.cons_append] at *
  rw [matchToken, matchKind_eq_none (matchDecimal_of_not_digit (by decide)),
    matchKind_eq_none (matchInteger_of_not_digit (by decide)), matchKind, if_pos wanted, found]
  rfl

end

/-! ### Words of each kind -/

theorem Keyword.first (k : Keyword) :
    all.find? (fun b => decide (b.text.toList <+: k.text.toList)) = some k := by
  cases k <;> decide

theorem Symbol.first (s : Symbol) :
    all.find? (fun b => decide (b.text.toList <+: s.text.toList)) = some s := by
  cases s <;> decide

theorem Keyword.no_space (k : Keyword) : ' ' ∉ k.text.toList := by
  cases k <;> decide

theorem Symbol.no_space (s : Symbol) : ' ' ∉ s.text.toList := by
  cases s <;> decide

/-- Marks begin with characters that begin nothing else. -/
theorem Symbol.text_head (s : Symbol) :
    ∃ c cs, s.text.toList = c :: cs ∧ isDigit c = false ∧ c ≠ '\'' ∧ c ≠ '"' ∧
      isNameStart c = false ∧ isLayout c = false ∧
      ∀ k ∈ Keyword.all, ∀ d ∈ k.text.toList.head?, d ≠ c := by
  have keywords {c : Char} (h : Keyword.all.all (·.text.toList.head? != some c) = true) :
      ∀ k ∈ Keyword.all, ∀ d ∈ k.text.toList.head?, d ≠ c := by
    intro k mem d head same
    have other := bne_iff_ne.1 (List.all_eq_true.1 h k mem)
    exact other (head.trans (congrArg some same))
  cases s <;> exact
    ⟨_, _, rfl, by decide, by decide, by decide, by decide, by decide, keywords (by decide)⟩

/-- Keywords are names. -/
theorem Keyword.text_head (k : Keyword) :
    ∃ c cs, k.text.toList = c :: cs ∧ isDigit c = false ∧ c ≠ '\'' ∧ c ≠ '"' ∧
      isNameStart c = true ∧ isLayout c = false ∧ ∀ d ∈ cs, isNamePart d = true := by
  cases k <;> exact
    ⟨_, _, rfl, by decide, by decide, by decide, by decide, by decide, List.all_eq_true.1 rfl⟩

theorem takeWhile_of_stop {p : Char → Bool} {cs rest : List Char} (all : ∀ c ∈ cs, p c = true)
    (stop : ∀ c ∈ rest.head?, p c = false) :
    (cs ++ rest).takeWhile p = cs ∧ (cs ++ rest).dropWhile p = rest := by
  have behind : rest.takeWhile p = [] ∧ rest.dropWhile p = rest := by
    cases rest with
    | nil => exact ⟨rfl, rfl⟩
    | cons c rest => simp [stop c rfl]
  rw [List.takeWhile_append_of_pos all, List.dropWhile_append_of_pos all, behind.1, behind.2,
    List.append_nil]
  exact ⟨rfl, rfl⟩

theorem Word.Ends.stop {p : Char → Bool} {rest : List Char} (ends : Ends rest)
    (space : p ' ' = false) : ∀ c ∈ rest.head?, p c = false := by
  intro c hc
  rw [ends c hc]
  exact space

/-- A text that names have, and no keyword has. -/
structure IsName (s : String) : Prop where
  start : ∃ c cs, s.toList = c :: cs ∧ isNameStart c = true ∧ ∀ d ∈ cs, isNamePart d = true
  free : ∀ k : Keyword, k.text ≠ s

/-- No name begins as a gap, a number or a quoted text does. -/
theorem of_isNameStart {c : Char} (h : isNameStart c = true) :
    isLayout c = false ∧ isDigit c = false ∧ c ≠ '\'' ∧ c ≠ '"' := by
  have code : 64 ≤ c.val.toNat := by
    simp only [isNameStart, isLetter, Bool.or_eq_true, Bool.and_eq_true, decide_eq_true_eq,
      Char.le_def, UInt32.le_iff_toNat_le] at h
    rcases h with (h | h) | rfl
    · exact Nat.le_trans (by decide) h.1
    · exact Nat.le_trans (by decide) h.1
    · decide
  have other : ∀ d : Char, d.val.toNat < 64 → c ≠ d := by
    rintro d low rfl
    omega
  refine ⟨?_, ?_, other _ (by decide), other _ (by decide)⟩
  · simp only [isLayout, Bool.or_eq_false_iff, decide_eq_false_iff_not]
    exact ⟨⟨⟨⟨other _ (by decide), other _ (by decide)⟩, other _ (by decide)⟩,
      other _ (by decide)⟩, other _ (by decide)⟩
  · simp only [isDigit, Bool.and_eq_false_iff, decide_eq_false_iff_not, Char.le_def,
      UInt32.le_iff_toNat_le]
    have nine : '9'.val.toNat = 57 := rfl
    omega

theorem matchName_of_ends {c : Char} {cs rest : List Char} (start : isNameStart c = true)
    (part : ∀ d ∈ cs, isNamePart d = true) (ends : Ends rest) :
    matchName (c :: cs ++ rest) = some (c :: cs, rest) := by
  obtain ⟨take, drop⟩ := takeWhile_of_stop part (ends.stop (by decide))
  rw [List.cons_append, matchName, if_pos start, take, drop]

theorem Word.legible_ident {s : String} (h : IsName s) : (ident s).Legible := by
  obtain ⟨⟨c, cs, text, start, part⟩, free⟩ := h
  obtain ⟨layout, digit, quote, quotes⟩ := of_isNameStart start
  refine ⟨fun wanted has rest ends => ?_, c, cs, text, layout⟩
  have none : wanted.keywords.find? (fun k => k.text.toList == c :: cs) = none := by
    rw [List.find?_eq_none]
    intro k _ same
    rw [← text, beq_iff_eq] at same
    exact free k (String.toList_injective same)
  rw [ident] at has ⊢
  simp only [text]
  rw [List.cons_append, matchToken_of_plain digit quote quotes, ← List.cons_append, matchWord,
    if_pos has, matchName_of_ends start part ends]
  simp only [none]
  rfl

theorem Word.legible_key (k : Keyword) : (key k).Legible := by
  obtain ⟨c, cs, text, digit, quote, quotes, start, layout, part⟩ := k.text_head
  refine ⟨fun wanted has rest ends => ?_, c, cs, text, layout⟩
  rw [key] at has ⊢
  by_cases named : wanted.has .ident = true
  · have first : wanted.keywords.find? (fun b => b.text.toList == k.text.toList) = some k := by
      rw [Wanted.keywords, List.find?_filter]
      apply find?_of_narrower k.first
      · intro b hb
        simp only [beq_iff_eq, decide_eq_true_eq] at hb ⊢
        exact hb.2 ▸ List.prefix_rfl
      · simp [has]
    rw [text] at first
    simp only [text]
    rw [List.cons_append, matchToken_of_plain digit quote quotes, ← List.cons_append, matchWord,
      if_pos named, matchName_of_ends start part ends]
    simp only [first]
    rfl
  · have found := matchFirst_of_mem (fun b => wanted.has (.keyword b)) k.first
      Keyword.no_space has ends
    simp only [text] at found ⊢
    rw [List.cons_append, matchToken_of_plain digit quote quotes, ← List.cons_append, matchWord,
      if_neg named, Wanted.keywords, found]
    rfl

/-- A mark begins no word, so that only marks are found where one stands. -/
theorem Symbol.matchToken_text (s : Symbol) (wanted : Wanted) (rest : List Char) :
    matchToken wanted (s.text.toList ++ rest) =
      (matchFirst Symbol.text (s.text.toList ++ rest) wanted.symbols).map
        fun (s, lexeme, rest) => (.symbol s, lexeme, rest) := by
  obtain ⟨c, cs, text, digit, quote, quotes, start, -, other⟩ := s.text_head
  have noWord : matchWord wanted (c :: (cs ++ rest)) = none := by
    rw [matchWord]
    split
    · rw [matchName, start]
      rfl
    · rw [matchFirst_eq_none]
      · rfl
      · intro k _ below
        obtain ⟨d, ds, keyword, -⟩ := k.text_head
        rw [keyword, List.cons_prefix_cons] at below
        exact other k (Keyword.mem_all k) d (by rw [keyword]; rfl) below.1
  rw [text, List.cons_append, matchToken_of_plain digit quote quotes, noWord]
  rfl

theorem Word.legible_mark (s : Symbol) : (mark s).Legible := by
  obtain ⟨c, cs, text, -, -, -, -, layout, -⟩ := s.text_head
  refine ⟨fun wanted has rest ends => ?_, c, cs, text, layout⟩
  have found := matchFirst_of_mem (fun b => wanted.has (.symbol b)) s.first
    Symbol.no_space has ends
  rw [mark, s.matchToken_text, Wanted.symbols, found]
  rfl

end PlcLang
