import PlcLang.Proofs.Except
import PlcLang.Proofs.Numerals

/-! Quoted texts: which bodies have no reading, and that everything can be written. -/

namespace PlcLang

namespace Text

/-- A backslash that is last, or that has no letter of its own behind it. -/
inductive Stuck : List Char → EscapeError → Prop where
  | unfinished : Stuck ['\\'] .unfinished
  | unknown {c : Char} (other : c ∉ letters) (rest : List Char) :
      Stuck ('\\' :: c :: rest) (.unknown c)

/-- A character inside quotes. A backslash, the quote and a line end are written with a
backslash. -/
def escaped (quote c : Char) : List Char :=
  if c = '\n' then ['\\', 'n']
  else if c = '\r' then ['\\', 'r']
  else if c = '\\' ∨ c = quote then ['\\', c]
  else [c]

/-- Characters in quotes. -/
def quoted (quote : Char) (cs : List Char) : List Char :=
  quote :: cs.flatMap (escaped quote) ++ [quote]

variable {quote c : Char} {p cs rest x : List Char} {ps : List (List Char)}

/-! ### Errors -/

theorem Pieces.cons (h : Pieces ps) (first : Piece p) : Pieces (p :: ps) :=
  List.forall_mem_cons.2 ⟨first, h⟩

theorem Stuck.unescape {e : EscapeError} (h : Stuck rest e) : unescape rest = .error e := by
  cases h with
  | unfinished => rfl
  | unknown other rest =>
    rw [unescape.eq_def]
    simp only [lookup_escapes_eq_none.2 other, ↓reduceIte]

/-- A body has no reading just where there is such a backslash behind pieces. -/
theorem unescape_error_iff {body : List Char} {e : EscapeError} :
    unescape body = .error e ↔
      ∃ ps rest, Pieces ps ∧ Stuck rest e ∧ body = ps.flatten ++ rest := by
  constructor
  · intro failed
    have none : Pieces [] := List.forall_mem_nil _
    induction body using unescape.induct with
    | case1 => cases failed
    | case2 =>
      cases failed
      exact ⟨[], _, none, .unfinished, rfl⟩
    | case3 letter rest unknown =>
      have stuck := Stuck.unknown (lookup_escapes_eq_none.1 unknown) rest
      cases stuck.unescape.symm.trans failed
      exact ⟨[], _, none, stuck, rfl⟩
    | case4 letter rest d known ih =>
      rw [unescape_letter known] at failed
      obtain ⟨ps, rest, pieces, stuck, rfl⟩ := ih (Except.map_eq_error.1 failed)
      have piece := Piece.escape (isSome_lookup_escapes.1 (Option.isSome_of_eq_some known))
      exact ⟨_, rest, pieces.cons piece, stuck, rfl⟩
    | case5 c rest other ih =>
      rw [unescape_cons other] at failed
      obtain ⟨ps, rest, pieces, stuck, rfl⟩ := ih (Except.map_eq_error.1 failed)
      exact ⟨_, rest, pieces.cons (.plain other), stuck, rfl⟩
  · rintro ⟨ps, rest, pieces, stuck, rfl⟩
    obtain ⟨s, -, reads⟩ := pieces.reads
    rw [reads, stuck.unescape]
    rfl

/-! ### Writing -/

/-- A character is written as a piece that is read as it. -/
theorem escaped_within (known : escapes.lookup quote = some quote) (c : Char) :
    Piece.Within quote (escaped quote c) ∧
      ∀ rest, unescape (escaped quote c ++ rest) = (unescape rest).map (c :: ·) := by
  have letter {l d : Char} (known : escapes.lookup l = some d) :
      Piece.Within quote ['\\', l] ∧
        ∀ rest, unescape (['\\', l] ++ rest) = (unescape rest).map (d :: ·) := by
    have isLetter := isSome_lookup_escapes.1 (Option.isSome_of_eq_some known)
    exact ⟨Piece.within_letter isLetter, fun rest => unescape_letter known rest⟩
  unfold escaped
  split
  · rename_i line
    subst line
    exact letter rfl
  · rename_i line
    split
    · rename_i carriage
      subst carriage
      exact letter rfl
    · rename_i carriage
      split
      · rename_i escape
        rcases escape with rfl | rfl
        · exact letter rfl
        · exact letter known
      · rename_i other
        obtain ⟨slash, other⟩ := not_or.1 other
        exact ⟨Piece.within_plain slash other line carriage, fun rest => unescape_cons slash rest⟩

/-- What is written in quotes is read back. -/
theorem unescape_quoted (known : escapes.lookup quote = some quote) (cs : List Char) :
    unescape (between (quoted quote cs)) = .ok cs := by
  rw [quoted, between_quotes]
  induction cs with
  | nil => rfl
  | cons c cs ih =>
    rw [List.flatMap_cons, (escaped_within known c).2, ih]
    rfl

theorem isString_quoted (cs : List Char) : IsString (quoted '"' cs) := by
  refine ⟨cs.map (escaped '"'), fun p mem => ?_, rfl⟩
  obtain ⟨c, -, rfl⟩ := List.mem_map.1 mem
  exact (escaped_within rfl c).1

theorem isCharacter_quoted (c : Char) : IsCharacter (quoted '\'' [c]) := by
  refine ⟨escaped '\'' c, (escaped_within rfl c).1, ?_⟩
  rw [quoted, List.flatMap_singleton]

end Text

open Text

variable {quote : Char} {x rest : List Char} {place : Place} {last position : Position}

/-- A token found at the very start of a text is the next one. -/
theorem nextToken_start {kind : Terminal} (dark : ∃ c cs, x = c :: cs ∧ isLayout c = false)
    (found : matchToken ⟨place.accepts⟩ (x ++ rest) = some (kind, x, rest)) :
    nextToken place last ⟨x ++ rest, position⟩ =
      .ok (⟨kind, x, position⟩, Cursor.past ⟨x ++ rest, position⟩ x rest) := by
  obtain ⟨c, cs, rfl, dark⟩ := dark
  have skip : Cursor.skipLayout ⟨c :: cs ++ rest, position⟩ = ⟨c :: cs ++ rest, position⟩ := by
    rw [List.cons_append, Cursor.skipLayout, Cursor.skipLayout.go, if_neg (by simp [dark])]
  rw [nextToken, skip]
  rw [List.cons_append] at *
  simp only [found]

/-- A text in quotes as the literal that it is: it is the next token wherever such a literal may
be, whatever follows it, and there it stands for this value. -/
structure Writes (kind : Terminal) (x : List Char) (value : Literal) : Prop where
  token : ∀ (w : Wanted) (rest : List Char), w.has kind = true →
    matchToken w (x ++ rest) = some (kind, x, rest)
  next : ∀ (place : Place) (last position : Position) (rest : List Char), kind ∈ place.accepts →
    nextToken place last ⟨x ++ rest, position⟩ =
      .ok (⟨kind, x, position⟩, Cursor.past ⟨x ++ rest, position⟩ x rest)
  literal : ∀ position, Token.literal? ⟨kind, x, position⟩ = some value
  read : ∀ position, Token.IsLiteral ⟨kind, x, position⟩ value

/-- A text is written by a token that is found before whatever follows it. -/
theorem Writes.of_found {kind : Terminal} {value : Literal}
    (dark : ∃ c cs, x = c :: cs ∧ isLayout c = false) (start : kind ∈ Place.operandStart)
    (found : ∀ (w : Wanted) (rest : List Char), w.has kind = true →
      matchToken w (x ++ rest) = some (kind, x, rest))
    (known : ∀ position, Token.literal? ⟨kind, x, position⟩ = some value)
    (sound : ∀ place position, Token.fault? place ⟨kind, x, position⟩ = none) :
    Writes kind x value where
  token := found
  next _ _ _ rest accepted :=
    nextToken_start dark (found _ rest (List.contains_iff_mem.2 accepted))
  literal := known
  read position := Token.isLiteral start (known position) fun place _ => sound place position

theorem quotedText_quoted (known : escapes.lookup quote = some quote) (cs : List Char) :
    quotedText (quoted quote cs) = String.ofList cs := by
  have back := unescape_quoted known cs
  rw [between] at back
  rw [quotedText, back]

theorem writes_string (s : String) : Writes .string (quoted '"' s.toList) (.string s) := by
  refine .of_found ⟨_, _, rfl, by decide⟩ (by decide)
    (fun w rest wanted => matchToken_string wanted (isString_quoted _) rest) (fun position => ?_)
    fun _ _ => rfl
  have double : escapes.lookup '"' = some '"' := rfl
  have read : quotedText (quoted '"' s.toList) = s :=
    (quotedText_quoted double s.toList).trans String.ofList_toList
  exact congrArg (fun text => some (Literal.string text)) read

theorem writes_character (c : Char) :
    Writes .character (quoted '\'' [c]) (.character (.string (String.singleton c))) := by
  refine .of_found ⟨_, _, rfl, by decide⟩ (by decide)
    (fun w rest wanted => matchToken_character wanted (isCharacter_quoted c) rest)
    (fun position => ?_) fun _ _ => rfl
  have single : escapes.lookup '\'' = some '\'' := rfl
  have read : quotedText (quoted '\'' [c]) = String.singleton c :=
    (quotedText_quoted single [c]).trans String.singleton_eq_ofList.symm
  exact congrArg (fun text => some (Literal.character (.string text))) read

/-- The patterns of quoted texts and the reading of escapes agree: what the lexer takes for a string
or a character is what the patterns have, and is read, a character as a single one. A body is not
read just where, behind pieces, there is a backslash that is last or has none of its letters behind
it, and the error tells which. Every string, and every character, can be written. -/
theorem quoted_texts_read :
    (∀ cs x rest, matchString cs = some (x, rest) ↔ IsString x ∧ cs = x ++ rest) ∧
    (∀ cs x rest, matchCharacter cs = some (x, rest) ↔ IsCharacter x ∧ cs = x ++ rest) ∧
    (∀ x, IsString x → ∃ s, unescape (between x) = .ok s) ∧
    (∀ x, IsCharacter x → ∃ c, unescape (between x) = .ok [c]) ∧
    (∀ body e, unescape body = .error e ↔
      ∃ ps rest, Pieces ps ∧ Stuck rest e ∧ body = ps.flatten ++ rest) ∧
    (∀ s : String, Writes .string (quoted '"' s.toList) (.string s)) ∧
    (∀ c : Char,
      Writes .character (quoted '\'' [c]) (.character (.string (String.singleton c)))) :=
  ⟨fun _ _ _ => matchString_eq_some, fun _ _ _ => matchCharacter_eq_some,
    fun _ h => h.reads, fun _ h => h.reads, fun _ _ => unescape_error_iff, writes_string,
    writes_character⟩

/-- Backslashes before a quote, and at the end. -/
theorem quoted_texts_read_few :
    (∃ s, unescape (between ['"', '\\', '\\', '"']) = .ok s) ∧
      (∃ c, unescape (between ['\'', '\\', '\'', '\'']) = .ok [c]) ∧
      unescape ['a', '\\'] = .error .unfinished ∧
      unescape ['\\', 'q', '\\'] = .error (.unknown 'q') ∧
      matchToken .anything (quoted '"' "\\\"".toList ++ ['"']) =
        some (.string, quoted '"' "\\\"".toList, ['"']) ∧
      matchToken .anything (quoted '\'' ['\n'] ++ ['\'']) =
        some (.character, quoted '\'' ['\n'], ['\'']) := by
  obtain ⟨-, -, strings, characters, errors, write, writeOne⟩ := quoted_texts_read
  have slashes : IsString ['"', '\\', '\\', '"'] :=
    ⟨[['\\', '\\']], by simpa using ⟨.escape (by decide), by decide, by decide, by decide⟩, rfl⟩
  have quote : IsCharacter ['\'', '\\', '\'', '\''] :=
    ⟨['\\', '\''], ⟨.escape (by decide), by decide, by decide, by decide⟩, rfl⟩
  have plain : Pieces [['a']] := by simpa [Pieces] using Piece.plain (by decide)
  exact ⟨strings _ slashes, characters _ quote,
    (errors _ _).2 ⟨[['a']], _, plain, .unfinished, rfl⟩,
    (errors _ _).2 ⟨[], _, List.forall_mem_nil _, .unknown (by decide) ['\\'], rfl⟩,
    (write _).token _ _ (by decide), (writeOne _).token _ _ (by decide)⟩

end PlcLang
