import PlcLang.Parser.Program
import Mathlib.Data.List.TakeWhile

/-! What the tokens of a program are: every one is a lexeme of its kind, found where it is looked
for. -/

namespace PlcLang

/-- The token is found at the start of some text, among the kinds looked for at a place. -/
def Token.Found (place : Place) (t : Token) : Prop :=
  ∃ cs rest, matchToken ⟨place.accepts⟩ cs = some (t.kind, t.text, rest)

/-- One kind is found by its own matcher, if it is looked for. -/
theorem matchKind_eq_some {w : Wanted} {kind kind' : Terminal} {m : List Char → Match}
    {cs lexeme rest : List Char} (h : matchKind w kind m cs = some (kind', lexeme, rest)) :
    kind' = kind ∧ w.has kind = true ∧ m cs = some (lexeme, rest) := by
  rw [matchKind] at h
  split at h
  · rename_i wanted
    obtain ⟨⟨l, r⟩, found, same⟩ := Option.map_eq_some_iff.1 h
    cases same
    exact ⟨rfl, wanted, found⟩
  · cases h

/-- A word is a keyword or a name. -/
theorem matchWord_kind {w : Wanted} {kind : Terminal} {cs lexeme rest : List Char}
    (h : matchWord w cs = some (kind, lexeme, rest)) :
    (∃ k, kind = .keyword k) ∨ kind = .ident ∧ matchName cs = some (lexeme, rest) := by
  rw [matchWord] at h
  split at h
  · split at h
    · cases h
    · rename_i l r found
      split at h
      · cases h
        exact .inl ⟨_, rfl⟩
      · cases h
        exact .inr ⟨rfl, found⟩
  · obtain ⟨⟨k, l, r⟩, -, same⟩ := Option.map_eq_some_iff.1 h
    cases same
    exact .inl ⟨k, rfl⟩

theorem of_orElse_eq_some {α : Type} {a b : Option α} {x : α} (h : (a <|> b) = some x) :
    a = some x ∨ b = some x := by
  cases a with
  | none => exact .inr h
  | some y => exact .inl h

/-- By which matcher a token of a kind is found. -/
theorem matchToken_eq_some {w : Wanted} {kind : Terminal} {cs lexeme rest : List Char}
    (h : matchToken w cs = some (kind, lexeme, rest)) :
    match kind with
    | .decimal => matchDecimal cs = some (lexeme, rest)
    | .integer => matchInteger cs = some (lexeme, rest)
    | .character => matchCharacter cs = some (lexeme, rest)
    | .string => matchString cs = some (lexeme, rest)
    | .ident => matchName cs = some (lexeme, rest)
    | .keyword _ | .symbol _ => True
    | .finish => False := by
  rw [matchToken] at h
  rcases of_orElse_eq_some h with h | h
  · obtain ⟨rfl, -, found⟩ := matchKind_eq_some h
    exact found
  rcases of_orElse_eq_some h with h | h
  · obtain ⟨rfl, -, found⟩ := matchKind_eq_some h
    exact found
  rcases of_orElse_eq_some h with h | h
  · obtain ⟨rfl, -, found⟩ := matchKind_eq_some h
    exact found
  rcases of_orElse_eq_some h with h | h
  · obtain ⟨rfl, -, found⟩ := matchKind_eq_some h
    exact found
  rcases of_orElse_eq_some h with h | h
  · rcases matchWord_kind h with ⟨k, rfl⟩ | ⟨rfl, found⟩
    · exact trivial
    · exact found
  · obtain ⟨⟨s, l, r⟩, -, same⟩ := Option.map_eq_some_iff.1 h
    cases same
    exact trivial

/-- The lexeme of an integer has digits only. -/
theorem isDigit_of_matchInteger {cs lexeme rest : List Char}
    (h : matchInteger cs = some (lexeme, rest)) : ∀ c ∈ lexeme, isDigit c = true := by
  cases cs with
  | nil => cases h
  | cons c cs =>
    rw [matchInteger] at h
    split at h
    · cases h
      exact List.forall_mem_singleton.2 rfl
    · split at h
      · rename_i digit
        cases h
        intro d hd
        rcases List.mem_cons.1 hd with rfl | hd
        · exact digit
        · exact List.mem_takeWhile_imp hd
      · cases h

theorem ne_nil_of_matchInteger {cs lexeme rest : List Char}
    (h : matchInteger cs = some (lexeme, rest)) : lexeme ≠ [] := by
  cases cs with
  | nil => cases h
  | cons c cs =>
    rw [matchInteger] at h
    split at h
    · cases h
      exact List.cons_ne_nil _ _
    · split at h
      · cases h
        exact List.cons_ne_nil _ _
      · cases h

/-- A run of digits denotes a number of no more digits. -/
theorem digitsNumber_lt {ds : List Char} (hd : ∀ c ∈ ds, isDigit c = true) :
    digitsNumber ds < tenTo ds.length := by
  suffices h : ∀ a, ds.foldl (fun n d => n * 10 + (d.toNat - '0'.toNat)) a <
      (a + 1) * tenTo ds.length by
    simpa [digitsNumber] using h 0
  induction ds with
  | nil =>
    intro a
    exact Nat.lt_of_lt_of_eq (Nat.lt_succ_self a) (Nat.mul_one _).symm
  | cons c ds ih =>
    intro a
    have digit := hd c (by simp)
    have small : c.toNat - '0'.toNat < 10 := by
      simp only [isDigit, Bool.and_eq_true, decide_eq_true_eq, Char.le_def,
        UInt32.le_iff_toNat_le] at digit
      have nine : '9'.val.toNat = 57 := rfl
      have zero : '0'.toNat = 48 := rfl
      rw [nine] at digit
      rw [zero, Char.toNat]
      omega
    have rest := ih (fun d hd' => hd d (by simp [hd'])) (a * 10 + (c.toNat - '0'.toNat))
    have step : tenTo (c :: ds).length = 10 * tenTo ds.length := by
      rw [List.length_cons, Nat.add_comm, tenTo_add]
      rfl
    calc (c :: ds).foldl (fun n d => n * 10 + (d.toNat - '0'.toNat)) a
        < (a * 10 + (c.toNat - '0'.toNat) + 1) * tenTo ds.length := rest
      _ ≤ ((a + 1) * 10) * tenTo ds.length := Nat.mul_le_mul_right _ (by omega)
      _ = (a + 1) * tenTo (c :: ds).length := by rw [step, Nat.mul_assoc]

/-- Digits around a point stand for the number of all of them, with as many places as stand behind
the point. -/
theorem decimalNumber_point {whole places : List Char}
    (digits : ∀ c ∈ whole, isDigit c = true) :
    decimalNumber (whole ++ '.' :: places) =
      .finite false (digitsNumber (whole ++ places)) (-places.length) := by
  have point : ¬ isDigit '.' = true := by decide
  have before : (whole ++ '.' :: places).takeWhile isDigit = whole := by
    rw [List.takeWhile_append_of_pos digits, List.takeWhile_cons_of_neg point, List.append_nil]
  have behind : ((whole ++ '.' :: places).dropWhile isDigit).drop 1 = places := by
    rw [List.dropWhile_append_of_pos digits, List.dropWhile_cons_of_neg point]
    rfl
  rw [decimalNumber, before, behind]

/-! ### Quoted texts -/

namespace Text

/-- What may follow a backslash. -/
def letters : List Char :=
  ['b', 'n', 'r', 't', '\'', '"', '\\']

/-- A character by itself, or a backslash with one of its letters. -/
inductive Piece : List Char → Prop where
  | plain {c : Char} (other : c ≠ '\\') : Piece [c]
  | escape {letter : Char} (known : letter ∈ letters) : Piece ['\\', letter]

/-- What may stand between such quotes: no quote or line end by itself. -/
structure Piece.Within (quote : Char) (p : List Char) : Prop where
  piece : Piece p
  quote : p ≠ [quote]
  line : p ≠ ['\n']
  carriage : p ≠ ['\r']

/-- Some pieces one after another. -/
def Pieces (ps : List (List Char)) : Prop :=
  ∀ p ∈ ps, Piece p

/-- A text in double quotes as the pattern of strings has it. -/
def IsString (x : List Char) : Prop :=
  ∃ ps : List (List Char), (∀ p ∈ ps, Piece.Within '"' p) ∧ x = '"' :: ps.flatten ++ ['"']

/-- A text in single quotes as the pattern of characters has it. -/
def IsCharacter (x : List Char) : Prop :=
  ∃ p, Piece.Within '\'' p ∧ x = '\'' :: p ++ ['\'']

/-- What stands between the quotes of a text. -/
def between (x : List Char) : List Char :=
  (x.drop 1).dropLast

theorem between_quotes (quote : Char) (body : List Char) :
    between (quote :: body ++ [quote]) = body := by
  rw [between, List.cons_append, List.drop_one, List.tail_cons, List.dropLast_concat]

theorem isSome_lookup_escapes {letter : Char} :
    (escapes.lookup letter).isSome = true ↔ letter ∈ letters := by
  have keys : letters = escapes.map (·.1) := rfl
  rw [keys, List.lookup_isSome_iff, List.mem_map]
  constructor
  · rintro ⟨entry, mem, same⟩
    exact ⟨entry, mem, (beq_iff_eq.1 same).symm⟩
  · rintro ⟨entry, mem, same⟩
    exact ⟨entry, mem, beq_iff_eq.2 same.symm⟩

theorem lookup_escapes_eq_none {letter : Char} :
    escapes.lookup letter = none ↔ letter ∉ letters := by
  rw [← isSome_lookup_escapes, Bool.not_eq_true, Option.isSome_eq_false_iff,
    Option.isNone_iff_eq_none]

variable {quote c : Char} {p cs rest x : List Char} {ps : List (List Char)}

/-- A piece is read as one character. -/
theorem Piece.reads (h : Piece p) :
    ∃ c, ∀ rest, unescape (p ++ rest) = (unescape rest).map (c :: ·) := by
  cases h with
  | plain other => exact ⟨_, fun rest => unescape_cons other rest⟩
  | escape known =>
    obtain ⟨d, found⟩ := Option.isSome_iff_exists.1 (isSome_lookup_escapes.2 known)
    exact ⟨d, fun rest => unescape_letter found rest⟩

/-- Pieces are read as a character each. -/
theorem Pieces.reads (h : Pieces ps) :
    ∃ s, s.length = ps.length ∧
      ∀ rest, unescape (ps.flatten ++ rest) = (unescape rest).map (s ++ ·) := by
  induction ps with
  | nil =>
    refine ⟨[], rfl, fun rest => ?_⟩
    rw [List.flatten_nil, List.nil_append]
    cases unescape rest <;> rfl
  | cons p ps ih =>
    obtain ⟨c, first⟩ := (h p List.mem_cons_self).reads
    obtain ⟨s, length, others⟩ := ih fun q mem => h q (List.mem_cons_of_mem _ mem)
    refine ⟨c :: s, congrArg (· + 1) length, fun rest => ?_⟩
    rw [List.flatten_cons, List.append_assoc, first, others]
    cases unescape rest <;> rfl

theorem Pieces.of_within (h : ∀ p ∈ ps, Piece.Within quote p) : Pieces ps :=
  fun p mem => (h p mem).piece

/-- What stands in double quotes is read as a character for each piece. -/
theorem IsString.reads (h : IsString x) : ∃ s, unescape (between x) = .ok s := by
  obtain ⟨ps, within, rfl⟩ := h
  obtain ⟨s, -, reads⟩ := (Pieces.of_within within).reads
  have read := reads []
  rw [List.append_nil] at read
  exact ⟨_, (congrArg unescape (between_quotes ..)).trans read⟩

theorem IsCharacter.reads (h : IsCharacter x) : ∃ c, unescape (between x) = .ok [c] := by
  obtain ⟨p, within, rfl⟩ := h
  obtain ⟨c, reads⟩ := within.piece.reads
  have read := reads []
  rw [List.append_nil] at read
  exact ⟨c, (congrArg unescape (between_quotes ..)).trans read⟩

/-! ### What is found in quotes -/

theorem Piece.within_plain (slash : c ≠ '\\') (noQuote : c ≠ quote) (line : c ≠ '\n')
    (carriage : c ≠ '\r') : Piece.Within quote [c] :=
  ⟨.plain slash, by simpa, by simpa, by simpa⟩

theorem Piece.within_letter {letter : Char} (known : letter ∈ letters) :
    Piece.Within quote ['\\', letter] :=
  ⟨.escape known, by simp, by simp, by simp⟩

theorem Piece.Within.cases (h : Piece.Within quote p) :
    (∃ c, p = [c] ∧ c ≠ '\\' ∧ c ≠ quote ∧ c ≠ '\n' ∧ c ≠ '\r') ∨
      ∃ letter ∈ letters, p = ['\\', letter] := by
  obtain ⟨piece, noQuote, line, carriage⟩ := h
  cases piece with
  | @plain c slash => exact .inl ⟨c, rfl, slash, by simpa using noQuote, by simpa using line,
      by simpa using carriage⟩
  | @escape letter known => exact .inr ⟨letter, known, rfl⟩

/-- A piece in quotes stands on one line. -/
theorem Piece.Within.unbroken (h : Piece.Within quote p) : ∀ c ∈ p, c ≠ '\n' ∧ c ≠ '\r' := by
  rcases h.cases with ⟨c, rfl, -, -, line, carriage⟩ | ⟨letter, known, rfl⟩
  · exact List.forall_mem_singleton.2 ⟨line, carriage⟩
  · refine List.forall_mem_cons.2 ⟨by decide, List.forall_mem_singleton.2 ⟨?_, ?_⟩⟩ <;>
    · rintro rfl
      exact absurd known (by decide)

theorem IsString.unbroken (h : IsString x) : ∀ c ∈ x, c ≠ '\n' ∧ c ≠ '\r' := by
  obtain ⟨ps, within, rfl⟩ := h
  have body : ∀ c ∈ ps.flatten, c ≠ '\n' ∧ c ≠ '\r' := by
    intro c mem
    obtain ⟨p, inside, mem⟩ := List.mem_flatten.1 mem
    exact (within p inside).unbroken c mem
  refine List.forall_mem_append.2 ⟨List.forall_mem_cons.2 ⟨by decide, body⟩, ?_⟩
  exact List.forall_mem_singleton.2 (by decide)

theorem IsCharacter.unbroken (h : IsCharacter x) : ∀ c ∈ x, c ≠ '\n' ∧ c ≠ '\r' := by
  obtain ⟨p, within, rfl⟩ := h
  refine List.forall_mem_append.2 ⟨List.forall_mem_cons.2 ⟨by decide, within.unbroken⟩, ?_⟩
  exact List.forall_mem_singleton.2 (by decide)

/-- A unit is a piece that may stand there. -/
theorem unit?_eq_some :
    unit? quote cs = some (p, rest) ↔ Piece.Within quote p ∧ cs = p ++ rest := by
  constructor
  · intro h
    rw [unit?.eq_def] at h
    split at h
    · cases h
    · rename_i c cs
      split at h
      · rename_i slash
        subst slash
        split at h
        · cases h
        · rename_i letter cs
          split at h
          · rename_i known
            cases h
            exact ⟨Piece.within_letter (isSome_lookup_escapes.1 known), rfl⟩
          · cases h
      · rename_i slash
        split at h
        · cases h
        · rename_i other
          cases h
          simp only [not_or] at other
          exact ⟨Piece.within_plain slash other.1 other.2.1 other.2.2, rfl⟩
  · rintro ⟨within, rfl⟩
    rcases within.cases with ⟨c, rfl, slash, noQuote, line, carriage⟩ | ⟨letter, known, rfl⟩
    · have plain : ¬ (c = quote ∨ c = '\n' ∨ c = '\r') := by
        simp only [noQuote, line, carriage, or_self, not_false_eq_true]
      rw [List.singleton_append, unit?.eq_def]
      simp only [if_neg slash, if_neg plain]
    · rw [List.cons_append, List.singleton_append, unit?.eq_def]
      simp only [↓reduceIte, isSome_lookup_escapes.2 known]

end Text

open Text

section

variable {quote c : Char} {p cs rest x : List Char} {ps : List (List Char)}

theorem matchCharacter_eq_some :
    matchCharacter cs = some (x, rest) ↔ IsCharacter x ∧ cs = x ++ rest := by
  constructor
  · intro h
    rw [matchCharacter.eq_def] at h
    split at h
    · split at h
      · rename_i unit
        cases h
        obtain ⟨within, rfl⟩ := unit?_eq_some.1 unit
        exact ⟨⟨_, within, rfl⟩, by simp⟩
      · cases h
    · cases h
  · rintro ⟨⟨p, within, rfl⟩, rfl⟩
    have unit : unit? '\'' (p ++ '\'' :: rest) = some (p, '\'' :: rest) :=
      unit?_eq_some.2 ⟨within, rfl⟩
    simp only [List.cons_append, List.append_assoc, List.nil_append, matchCharacter, unit]

/-- A piece that may stand in double quotes is read over. -/
theorem matchBody_piece (within : Piece.Within '"' p) (cs : List Char) :
    matchBody (p ++ cs) = (matchBody cs).map fun (lexeme, after) => (p ++ lexeme, after) := by
  rcases within.cases with ⟨c, rfl, slash, noQuote, line, carriage⟩ | ⟨letter, known, rfl⟩
  · rw [List.singleton_append, matchBody.eq_5 c cs noQuote slash,
      if_neg (not_or.2 ⟨line, carriage⟩)]
    rfl
  · rw [List.cons_append, List.singleton_append, matchBody, if_pos (isSome_lookup_escapes.2 known)]
    rfl

theorem matchBody_eq_some :
    matchBody cs = some (x, rest) ↔
      ∃ ps : List (List Char), (∀ p ∈ ps, Piece.Within '"' p) ∧ x = ps.flatten ++ ['"'] ∧
        cs = x ++ rest := by
  constructor
  · intro h
    have step {p cs x : List Char} (within : Piece.Within '"' p)
        (h : matchBody (p ++ cs) = some (x, rest))
        (ih : ∀ {x}, matchBody cs = some (x, rest) → ∃ ps : List (List Char),
          (∀ p ∈ ps, Piece.Within '"' p) ∧ x = ps.flatten ++ ['"'] ∧ cs = x ++ rest) :
        ∃ ps : List (List Char), (∀ p ∈ ps, Piece.Within '"' p) ∧ x = ps.flatten ++ ['"'] ∧
          p ++ cs = x ++ rest := by
      rw [matchBody_piece within] at h
      obtain ⟨⟨x', _⟩, read, same⟩ := Option.map_eq_some_iff.1 h
      cases same
      obtain ⟨ps, others, rfl, rfl⟩ := ih read
      exact ⟨p :: ps, List.forall_mem_cons.2 ⟨within, others⟩, (List.append_assoc ..).symm,
        (List.append_assoc ..).symm⟩
    induction cs using matchBody.induct generalizing x with
    | case1 => cases h
    | case2 cs =>
      cases h
      exact ⟨[], List.forall_mem_nil _, rfl, rfl⟩
    | case3 => cases h
    | case4 letter cs known ih =>
      exact step (Piece.within_letter (isSome_lookup_escapes.1 known)) h ih
    | case5 letter cs unknown =>
      rw [matchBody, if_neg unknown] at h
      cases h
    | case6 c cs noQuote noSlash lineEnd =>
      rw [matchBody.eq_5 c cs noQuote noSlash, if_pos lineEnd] at h
      cases h
    | case7 c cs noQuote noSlash plain ih =>
      obtain ⟨line, carriage⟩ := not_or.1 plain
      exact step (Piece.within_plain noSlash noQuote line carriage) h ih
  · rintro ⟨ps, within, rfl, rfl⟩
    induction ps with
    | nil => rfl
    | cons p ps ih =>
      obtain ⟨first, others⟩ := List.forall_mem_cons.1 within
      rw [List.flatten_cons, List.append_assoc, List.append_assoc, matchBody_piece first,
        ← List.append_assoc, ih others, Option.map_some, List.append_assoc]

theorem matchString_eq_some :
    matchString cs = some (x, rest) ↔ IsString x ∧ cs = x ++ rest := by
  constructor
  · intro h
    rw [matchString.eq_def] at h
    split at h
    · obtain ⟨⟨body, _⟩, read, same⟩ := Option.map_eq_some_iff.1 h
      cases same
      obtain ⟨ps, within, rfl, rfl⟩ := matchBody_eq_some.1 read
      exact ⟨⟨ps, within, rfl⟩, rfl⟩
    · cases h
  · rintro ⟨⟨ps, within, rfl⟩, rfl⟩
    have read : matchBody (ps.flatten ++ ['"'] ++ rest) = some (ps.flatten ++ ['"'], rest) :=
      matchBody_eq_some.2 ⟨ps, within, rfl, rfl⟩
    rw [List.cons_append, List.cons_append, matchString, read]
    rfl

end

/-! ### Reading -/

/-- Every token read is found at its place. -/
theorem nextToken_found {place : Place} {last : Position} {cursor cursor' : Cursor} {t : Token}
    (h : nextToken place last cursor = .ok (t, cursor')) (more : t.kind ≠ .finish) :
    t.Found place := by
  simp only [nextToken] at h
  split at h
  · cases h
    exact absurd rfl more
  · split at h
    · rename_i kind lexeme rest found
      cases h
      exact ⟨_, rest, found⟩
    · split at h <;> cases h

namespace Parser

theorem readTokens_found {fuel : Nat} {c : Configuration} {place : Place} {last : Position}
    {cursor : Cursor} {p : Program} {ts : List (Place × Token)}
    (read : readTokens fuel c place last cursor = .ok (p, ts)) :
    ∀ place t, (place, t) ∈ ts → t.Found place := by
  induction fuel generalizing c place last cursor ts with
  | zero => cases read
  | succ fuel ih =>
    rw [readTokens] at read
    split at read
    · cases read
    · rename_i t cursor' next
      split at read
      · split at read
        · cases read
          intro place t h
          cases h
        · cases read
      · rename_i more
        split at read
        · cases read
        · rename_i c' place' leads
          cases rest : readTokens fuel c' place' t.position cursor' with
          | error e =>
            rw [rest] at read
            cases read
          | ok r =>
            rw [rest] at read
            cases read
            intro place u h
            rcases List.mem_cons.1 h with h | h
            · cases h
              exact nextToken_found next more
            · exact ih rest place u h

end Parser

end PlcLang
