namespace PlcLang.Text

/-- The letter after a backslash, and the character the two stand for. -/
def escapes : List (Char × Char) :=
  [('b', '\x08'), ('n', '\n'), ('r', '\r'), ('t', '\t'), ('\'', '\''), ('"', '"'), ('\\', '\\')]

/-- Why the body of a quoted literal has no reading. -/
inductive EscapeError where
  | unknown (letter : Char)
  | unfinished
deriving DecidableEq, Repr

def EscapeError.message : EscapeError → String
  | .unknown letter => letter.toString
  | .unfinished => "string index out of range"

/-- Replace the escapes in the body of a character or string literal. The leftmost bad escape
is the one reported. -/
def unescape : List Char → Except EscapeError (List Char)
  | [] => .ok []
  | c :: rest =>
    if c = '\\' then
      match rest with
      | [] => .error .unfinished
      | letter :: rest =>
        match escapes.lookup letter with
        | none => .error (.unknown letter)
        | some d => (unescape rest).map (d :: ·)
    else (unescape rest).map (c :: ·)

/-- One character inside quotes: a quote, a backslash or a line end is written as an escape. -/
def escapeChar (c : Char) : List Char :=
  if c = '\n' then ['\\', 'n']
  else if c = '\r' then ['\\', 'r']
  else if c = '\'' ∨ c = '"' ∨ c = '\\' then ['\\', c]
  else [c]

def escape (cs : List Char) : List Char :=
  cs.flatMap escapeChar

theorem unescape_cons {c : Char} (h : c ≠ '\\') (rest : List Char) :
    unescape (c :: rest) = (unescape rest).map (c :: ·) := by
  rw [unescape.eq_def]
  exact if_neg h

theorem unescape_letter {letter d : Char} (h : escapes.lookup letter = some d) (rest : List Char) :
    unescape ('\\' :: letter :: rest) = (unescape rest).map (d :: ·) := by
  rw [unescape.eq_def]
  simp only [h, ↓reduceIte]

theorem unescape_escapeChar (c : Char) (rest : List Char) :
    unescape (escapeChar c ++ rest) = (unescape rest).map (c :: ·) := by
  unfold escapeChar
  split
  · subst c; exact unescape_letter (by decide) rest
  · split
    · subst c; exact unescape_letter (by decide) rest
    · split
      · rename_i h
        rcases h with rfl | rfl | rfl <;> exact unescape_letter (by decide) rest
      · rename_i h
        exact unescape_cons (fun e => h (.inr (.inr e))) rest

theorem unescape_escape (cs : List Char) : unescape (escape cs) = .ok cs := by
  induction cs with
  | nil => rfl
  | cons c cs ih =>
    rw [escape, List.flatMap_cons, unescape_escapeChar]
    rw [escape] at ih
    rw [ih]
    rfl

/-- One unit of a quoted body, and what follows it: a character that needs no escape, or a
backslash with one of its letters. -/
def unit? (quote : Char) : List Char → Option (List Char × List Char)
  | [] => none
  | c :: rest =>
    if c = '\\' then
      match rest with
      | [] => none
      | letter :: rest =>
        if (escapes.lookup letter).isSome then some ([c, letter], rest) else none
    else if c = quote ∨ c = '\n' ∨ c = '\r' then none
    else some ([c], rest)

end PlcLang.Text
