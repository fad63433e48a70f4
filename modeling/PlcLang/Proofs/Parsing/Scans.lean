import PlcLang.Proofs.Except
import PlcLang.Proofs.Parsing.Lexemes
import PlcLang.Proofs.Parsing.Reading

/-! Reading a text token by token, whatever the white space between the tokens. -/

namespace PlcLang

/-- White space only, or nothing. -/
def IsGap (gap : List Char) : Prop :=
  ∀ c ∈ gap, isLayout c = true

/-- White space, and some of it. -/
def IsSpace (gap : List Char) : Prop :=
  IsGap gap ∧ gap ≠ []

instance (gap : List Char) : Decidable (IsGap gap) :=
  decidable_of_iff (gap.all isLayout = true) List.all_eq_true

instance (gap : List Char) : Decidable (IsSpace gap) :=
  inferInstanceAs (Decidable (IsGap gap ∧ gap ≠ []))

/-- The position behind a text that begins at `p`. -/
def Position.after (p : Position) (text : List Char) : Position :=
  text.foldl advance p

theorem Position.after_append (p : Position) (text rest : List Char) :
    p.after (text ++ rest) = (p.after text).after rest :=
  List.foldl_append

/-- A token without its position. -/
def Token.word (t : Token) : Word :=
  ⟨t.kind, t.text⟩

/-! ### White space -/

theorem Cursor.skipLayout_gap {gap rest : List Char} (layout : IsGap gap)
    (starts : ∀ c ∈ rest.head?, isLayout c = false) (p : Position) :
    (Cursor.mk (gap ++ rest) p).skipLayout = ⟨rest, p.after gap⟩ := by
  show skipLayout.go (gap ++ rest) p = _
  induction gap generalizing p with
  | nil =>
    cases rest with
    | nil => rfl
    | cons c rest =>
      rw [List.nil_append, skipLayout.go, starts c rfl]
      rfl
  | cons c gap ih =>
    rw [List.cons_append, skipLayout.go, if_pos (layout c List.mem_cons_self)]
    exact ih (fun d hd => layout d (List.mem_cons_of_mem c hd)) (p.advance c)

theorem Cursor.skipLayout_split (cursor : Cursor) :
    ∃ gap, IsGap gap ∧ cursor.rest = gap ++ cursor.skipLayout.rest ∧
      cursor.skipLayout.position = cursor.position.after gap ∧
      ∀ c ∈ cursor.skipLayout.rest.head?, isLayout c = false := by
  obtain ⟨text, p⟩ := cursor
  have layout : IsGap (text.takeWhile isLayout) := fun c hc => List.mem_takeWhile_imp hc
  have starts : ∀ c ∈ (text.dropWhile isLayout).head?, isLayout c = false := head_dropWhile
  have same := skipLayout_gap layout starts p
  rw [List.takeWhile_append_dropWhile] at same
  refine ⟨text.takeWhile isLayout, layout, ?_, ?_, ?_⟩
  · rw [same, List.takeWhile_append_dropWhile]
  · rw [same]
  · rw [same]
    exact head_dropWhile

theorem Cursor.skipLayout_all {gap : List Char} (layout : IsGap gap) (p : Position) :
    (Cursor.mk gap p).skipLayout = ⟨[], p.after gap⟩ := by
  have none : ∀ c ∈ ([] : List Char).head?, isLayout c = false := by simp
  have same := skipLayout_gap layout none p
  rwa [List.append_nil] at same

/-! ### One token -/

section

variable {place : Place} {last : Position} {cursor cursor' : Cursor} {t : Token}

/-- A token that is no end stands behind a gap, and the text goes on behind it. -/
theorem nextToken_split (next : nextToken place last cursor = .ok (t, cursor'))
    (more : t.kind ≠ .finish) :
    ∃ gap, IsGap gap ∧ cursor.rest = gap ++ (t.text ++ cursor'.rest) ∧
      matchToken ⟨place.accepts⟩ (t.text ++ cursor'.rest) = some (t.kind, t.text, cursor'.rest) ∧
      t.position = cursor.position.after gap ∧
      cursor'.position = cursor.position.after (gap ++ t.text) := by
  obtain ⟨gap, layout, split, position, -⟩ := cursor.skipLayout_split
  rw [nextToken] at next
  split at next
  · cases next
    exact absurd rfl more
  · split at next
    · rename_i kind lexeme rest found
      cases next
      obtain ⟨same, -⟩ := matchToken_split found
      rw [same] at found split
      refine ⟨gap, layout, split, found, position, ?_⟩
      rw [Position.after_append, ← position]
      rfl
    · split at next <;> cases next

/-- The end stands behind a gap, and has the position of the token before. -/
theorem nextToken_finish (next : nextToken place last cursor = .ok (t, cursor'))
    (ends : t.kind = .finish) : IsGap cursor.rest ∧ t = ⟨.finish, [], last⟩ := by
  obtain ⟨gap, layout, split, -⟩ := cursor.skipLayout_split
  rw [nextToken] at next
  split at next
  · rename_i none
    cases next
    rw [none, List.append_nil] at split
    exact ⟨split ▸ layout, rfl⟩
  · split at next
    · rename_i kind lexeme rest found
      cases next
      rw [show kind = .finish from ends] at found
      exact (matchToken_eq_some found).elim
    · split at next <;> cases next

theorem nextToken_gap (place : Place) (last : Position) {gap : List Char} (layout : IsGap gap)
    (p : Position) :
    nextToken place last ⟨gap, p⟩ = .ok (⟨.finish, [], last⟩, ⟨[], p.after gap⟩) := by
  rw [nextToken]
  simp only [Cursor.skipLayout_all layout]

/-- A lexeme behind a gap is the next token. -/
theorem nextToken_of_found {kind : Terminal} {gap lexeme rest : List Char} (layout : IsGap gap)
    (found : matchToken ⟨place.accepts⟩ (lexeme ++ rest) = some (kind, lexeme, rest))
    (last p : Position) :
    nextToken place last ⟨gap ++ (lexeme ++ rest), p⟩ =
      .ok (⟨kind, lexeme, p.after gap⟩, ⟨rest, p.after (gap ++ lexeme)⟩) := by
  obtain ⟨-, ⟨c, inner, rfl, visible, -⟩, -⟩ := matchToken_split found
  have starts : ∀ d ∈ (c :: inner ++ rest).head?, isLayout d = false :=
    fun d hd => Option.mem_some_iff.1 hd ▸ visible
  have skip := Cursor.skipLayout_gap layout starts p
  rw [nextToken]
  simp only [skip]
  rw [List.cons_append] at found ⊢
  simp only [found, Position.after_append]
  rfl

/-- A token that is no end stands behind the white space. -/
theorem nextToken_here (next : nextToken place last cursor = .ok (t, cursor'))
    (more : t.kind ≠ .finish) :
    t.text ≠ [] ∧ t.text <+: cursor.skipLayout.rest ∧
      t.position = cursor.skipLayout.position := by
  rw [nextToken] at next
  split at next
  · cases next
    exact absurd rfl more
  · split at next
    · rename_i kind lexeme rest found
      cases next
      obtain ⟨split, ⟨c, inner, text, -⟩, -⟩ := matchToken_split found
      exact ⟨by rw [text]; exact List.cons_ne_nil c inner, ⟨rest, split.symm⟩, rfl⟩
    · split at next <;> cases next

/-- Where no token is found that is looked for, there is another, or none at all. -/
theorem nextToken_error {e : SyntaxError} (failed : nextToken place last cursor = .error e) :
    match e with
    | .character c p =>
      cursor.skipLayout.rest.head? = some c ∧ matchToken .anything cursor.skipLayout.rest = none ∧
        p = cursor.skipLayout.position
    | .token t =>
      matchToken ⟨place.accepts⟩ cursor.skipLayout.rest = none ∧
        (∃ rest, matchToken .anything cursor.skipLayout.rest = some (t.kind, t.text, rest)) ∧
        t.position = cursor.skipLayout.position := by
  rw [nextToken] at failed
  split at failed
  · cases failed
  · rename_i c rest here
    split at failed
    · cases failed
    · rename_i none
      split at failed
      · rename_i kind lexeme rest any
        cases failed
        exact ⟨none, ⟨rest, any⟩, rfl⟩
      · rename_i none
        cases failed
        exact ⟨by rw [here]; rfl, none, rfl⟩

/-- The same token is found behind another gap and before another text. -/
theorem nextToken_again (next : nextToken place last cursor = .ok (t, cursor'))
    (more : t.kind ≠ .finish) {gap rest : List Char} (layout : IsGap gap)
    (follows : Follows cursor'.rest rest) (last' p : Position) :
    nextToken place last' ⟨gap ++ (t.text ++ rest), p⟩ =
      .ok (⟨t.kind, t.text, p.after gap⟩, ⟨rest, p.after (gap ++ t.text)⟩) := by
  obtain ⟨-, -, -, found, -⟩ := nextToken_split next more
  exact nextToken_of_found layout (matchToken_again found follows) last' p

theorem isLexeme_of_next (next : nextToken place last cursor = .ok (t, cursor'))
    (more : t.kind ≠ .finish) : IsLexeme t.text := by
  obtain ⟨-, -, -, found, -⟩ := nextToken_split next more
  exact (matchToken_split found).2

end

/-- Where a token stands in the text does not tell where it leads. -/
theorem Parser.Configuration.shift_position (c : Configuration) (t : Token) (p : Position) :
    c.shift { t with position := p } = c.shift t :=
  rfl

theorem Parser.Configuration.shift_word {t t' : Token} (same : t.word = t'.word)
    (c : Configuration) : c.shift t = c.shift t' := by
  obtain ⟨kind, text, p⟩ := t
  obtain ⟨kind', text', p'⟩ := t'
  cases same
  exact c.shift_position ⟨kind, text, p'⟩ p

namespace Parser

/-- Where a reader stands: the configuration, the place for the next token, the position of the
last one, and the text ahead. -/
structure Stand where
  configuration : Configuration
  place : Place
  last : Position
  cursor : Cursor

/-- Before the first token of a text. -/
def Stand.start (text : List Char) : Stand :=
  ⟨{}, .start, .origin, .ofText text⟩

/-- Reads on from a stand. -/
def Stand.read (s : Stand) (fuel : Nat) : Except SyntaxError (Program × List (Place × Token)) :=
  readTokens fuel s.configuration s.place s.last s.cursor

/-- From one stand the tokens lead to another. -/
inductive Scans : Stand → List (Place × Token) → Stand → Prop where
  | nil {s : Stand} : Scans s [] s
  | cons {s s' : Stand} {t : Token} {cursor : Cursor} {c : Configuration} {place : Place}
      {tokens : List (Place × Token)} (next : nextToken s.place s.last s.cursor = .ok (t, cursor))
      (more : t.kind ≠ .finish) (shift : s.configuration.shift t = some (c, place))
      (rest : Scans ⟨c, place, t.position, cursor⟩ tokens s') :
      Scans s ((s.place, t) :: tokens) s'

/-- No token leads on from a stand. -/
inductive Stuck (s : Stand) : SyntaxError → Prop where
  | lexing {e : SyntaxError} (next : nextToken s.place s.last s.cursor = .error e) : Stuck s e
  | token {t : Token} {cursor : Cursor} (next : nextToken s.place s.last s.cursor = .ok (t, cursor))
      (more : t.kind ≠ .finish) (shift : s.configuration.shift t = none) : Stuck s (.token t)
  | finish {t : Token} {cursor : Cursor}
      (next : nextToken s.place s.last s.cursor = .ok (t, cursor)) (ends : t.kind = .finish)
      (shift : s.configuration.program? = none) : Stuck s (.token t)

/-- A text that is read as a program is read by its tokens up to a gap at its end. -/
theorem Scans.of_read {fuel : Nat} {s : Stand} {p : Program} {tokens : List (Place × Token)}
    (read : s.read fuel = .ok (p, tokens)) :
    ∃ s', Scans s tokens s' ∧ IsGap s'.cursor.rest ∧ s'.configuration.program? = some p := by
  induction fuel generalizing s tokens with
  | zero => cases read
  | succ fuel ih =>
    rw [Stand.read, readTokens] at read
    split at read
    · cases read
    · rename_i t cursor next
      split at read
      · rename_i ends
        split at read
        · rename_i q program
          cases read
          exact ⟨s, .nil, (nextToken_finish next ends).1, program⟩
        · cases read
      · rename_i more
        split at read
        · cases read
        · rename_i c place shift
          obtain ⟨⟨q, ts⟩, rest, same⟩ := Except.map_eq_ok.1 read
          cases same
          obtain ⟨s', scans, gap, program⟩ := ih (s := ⟨c, place, t.position, cursor⟩) rest
          exact ⟨s', .cons next more shift scans, gap, program⟩

/-- A text that is broken is read by its tokens up to where none leads on. -/
theorem Scans.of_failed {fuel : Nat} {s : Stand} {e : SyntaxError}
    (enough : s.cursor.rest.length < fuel) (failed : s.read fuel = .error e) :
    ∃ tokens s', Scans s tokens s' ∧ Stuck s' e := by
  induction fuel generalizing s with
  | zero => exact absurd enough (Nat.not_lt_zero _)
  | succ fuel ih =>
    rw [Stand.read, readTokens] at failed
    split at failed
    · rename_i next
      cases failed
      exact ⟨[], s, .nil, .lexing next⟩
    · rename_i t cursor next
      split at failed
      · rename_i ends
        split at failed
        · cases failed
        · rename_i program
          cases failed
          exact ⟨[], s, .nil, .finish next ends program⟩
      · rename_i more
        split at failed
        · rename_i shift
          cases failed
          exact ⟨[], s, .nil, .token next more shift⟩
        · rename_i c place shift
          have rest := Except.map_eq_error.1 failed
          obtain ⟨gap, -, split, -⟩ := nextToken_split next more
          obtain ⟨⟨d, inner, text, -⟩, -⟩ := isLexeme_of_next next more
          have shorter : cursor.rest.length < fuel := by
            have length := congrArg List.length split
            rw [text, List.length_append, List.length_append, List.length_cons] at length
            omega
          obtain ⟨tokens, s', scans, stuck⟩ :=
            ih (s := ⟨c, place, t.position, cursor⟩) shorter rest
          exact ⟨(s.place, t) :: tokens, s', .cons next more shift scans, stuck⟩

section

variable {s s' : Stand} {tokens : List (Place × Token)}

/-- What is read behind the tokens is added to them. -/
theorem Scans.read (scans : Scans s tokens s') (fuel : Nat) :
    s.read (tokens.length + fuel) = (s'.read fuel).map fun (p, ts) => (p, tokens ++ ts) := by
  induction scans with
  | nil =>
    rw [List.length_nil, Nat.zero_add]
    cases Stand.read _ fuel <;> rfl
  | @cons s s' t cursor c place tokens next more shift rest ih =>
    rw [List.length_cons, Nat.add_right_comm, Stand.read, readTokens, next]
    simp only [if_neg more, shift]
    rw [show readTokens (tokens.length + fuel) c place t.position cursor =
      Stand.read ⟨c, place, t.position, cursor⟩ (tokens.length + fuel) from rfl, ih]
    cases s'.read fuel <;> rfl

theorem Stand.read_gap {p : Program} (gap : IsGap s.cursor.rest)
    (program : s.configuration.program? = some p) (fuel : Nat) :
    s.read (fuel + 1) = .ok (p, []) := by
  obtain ⟨c, place, last, text, position⟩ := s
  rw [Stand.read, readTokens, nextToken_gap place last gap]
  simp only [↓reduceIte, program]

/-- The tokens are taken from the start of the text. The position of the last of them is kept. -/
theorem Scans.consumed (scans : Scans s tokens s') :
    ∃ text, s.cursor.rest = text ++ s'.cursor.rest ∧
      s'.cursor.position = s.cursor.position.after text ∧ tokens.length ≤ text.length ∧
      (∀ c ∈ text.head?, isLayout c = true ∨ c ≠ '.') ∧
      (tokens = [] ∧ s'.last = s.last ∨
        ∃ lead place t, tokens.getLast? = some (place, t) ∧ text = lead ++ t.text ∧
          t.position = s.cursor.position.after lead ∧ s'.last = t.position) := by
  induction scans with
  | nil => exact ⟨[], rfl, rfl, Nat.le_refl 0, by simp, .inl ⟨rfl, rfl⟩⟩
  | @cons s s' t cursor c place tokens next more shift rest ih =>
    obtain ⟨text, tail, position, length, -, last⟩ := ih
    obtain ⟨gap, layout, split, -, here, behind⟩ := nextToken_split next more
    obtain ⟨⟨d, inner, lexeme, -, point⟩, -⟩ := isLexeme_of_next next more
    simp only at tail position last
    refine ⟨gap ++ t.text ++ text, ?_, ?_, ?_, ?_, .inr ?_⟩
    · rw [split, tail]
      simp
    · rw [position, behind, ← Position.after_append]
    · rw [lexeme, List.length_cons]
      simp only [List.length_append, List.length_cons]
      omega
    · intro a head
      rw [List.append_assoc, lexeme] at head
      cases gap with
      | nil =>
        cases head
        exact .inr point
      | cons b gap =>
        cases head
        exact .inl (layout _ List.mem_cons_self)
    · rcases last with ⟨rfl, last⟩ | ⟨lead, place', u, final, rfl, at_lead, last⟩
      · cases rest
        have none : text = [] := List.self_eq_append_left.1 tail
        exact ⟨gap, _, t, rfl, by rw [none, List.append_nil], here, rfl⟩
      · refine ⟨gap ++ t.text ++ lead, place', u, ?_, by simp, ?_, last⟩
        · rw [List.getLast?_cons, final]
          rfl
        · rw [at_lead, behind, ← Position.after_append]

/-- Before another text that does not run on from them the same tokens are read. -/
theorem Scans.before (scans : Scans s tokens s') {text rest : List Char}
    (split : s.cursor.rest = text ++ s'.cursor.rest) (follows : Follows s'.cursor.rest rest) :
    Scans { s with cursor := ⟨text ++ rest, s.cursor.position⟩ } tokens
      { s' with cursor := ⟨rest, s'.cursor.position⟩ } := by
  induction scans generalizing text with
  | @nil s =>
    have none : text = [] := List.self_eq_append_left.1 split
    rw [none]
    exact .nil
  | @cons s s' t cursor c place tokens next more shift tail ih =>
    obtain ⟨gap, layout, here, -, position, behind⟩ := nextToken_split next more
    obtain ⟨inner, same, -, -, head, -⟩ := tail.consumed
    simp only at same
    have parts : text = gap ++ (t.text ++ inner) := by
      rw [here, same] at split
      apply List.append_cancel_right
      rw [← split]
      simp
    have follows' : Follows cursor.rest (inner ++ rest) := by
      rw [same]
      cases inner with
      | nil => exact follows
      | cons d inner =>
        intro a ha
        cases ha
        exact (head d rfl).imp id fun point => ⟨point, rfl⟩
    have found := nextToken_again next more layout follows' s.last s.cursor.position
    have rest' := ih same follows
    rw [parts, List.append_assoc, List.append_assoc]
    rw [← position, ← behind] at found
    exact .cons found more shift rest'

end

/-! ### Other white space -/

/-- The words in turn with a gap before each and one at the end, and all gaps as asked. -/
inductive Laid (fits : List Char → Prop) : List Word → List Char → Prop where
  | nil {gap : List Char} (fit : fits gap) : Laid fits [] gap
  | cons {gap text : List Char} {w : Word} {ws : List Word} (fit : fits gap)
      (more : Laid fits ws text) : Laid fits (w :: ws) (gap ++ (w.text ++ text))

/-- Two texts of the same words with other gaps, where a gap that is empty in the second is empty
in the first. -/
inductive Relaid : List Word → List Char → List Char → Prop where
  | nil {gap gap' : List Char} (layout : IsGap gap) (layout' : IsGap gap')
      (kept : gap' = [] → gap = []) : Relaid [] gap gap'
  | cons {gap gap' text text' : List Char} {w : Word} {ws : List Word} (layout : IsGap gap)
      (layout' : IsGap gap') (kept : gap' = [] → gap = []) (more : Relaid ws text text') :
      Relaid (w :: ws) (gap ++ (w.text ++ text)) (gap' ++ (w.text ++ text'))

/-- Gaps that are not empty may stand for any. -/
theorem Laid.relaid {ws : List Word} {text text' : List Char} (old : Laid IsGap ws text)
    (new : Laid IsSpace ws text') : Relaid ws text text' := by
  induction old generalizing text' with
  | nil layout =>
    cases new with
    | nil fit => exact .nil layout fit.1 fun none => absurd none fit.2
  | cons layout more ih =>
    cases new with
    | cons fit more' => exact .cons layout fit.1 (fun none => absurd none fit.2) (ih more')

/-- What begins a text begins it with other gaps as well, but for white space. -/
theorem Relaid.follows {ws : List Word} {text text' : List Char} (relaid : Relaid ws text text')
    (lexemes : ∀ w ∈ ws, IsLexeme w.text) : Follows text text' := by
  intro c head
  cases relaid with
  | nil layout layout' kept => exact .inl (layout' c (List.mem_of_mem_head? head))
  | @cons gap gap' text text' w ws layout layout' kept more =>
    obtain ⟨⟨d, inner, lexeme, -, point⟩, -⟩ := lexemes w List.mem_cons_self
    cases gap' with
    | nil =>
      rw [kept rfl]
      rw [lexeme] at head ⊢
      cases head
      exact .inr ⟨point, rfl⟩
    | cons b gap' =>
      cases head
      exact .inl (layout' _ List.mem_cons_self)

section

variable {s s' : Stand} {tokens : List (Place × Token)}

/-- The place and the word of a token that is read. -/
def unplaced (entry : Place × Token) : Place × Word :=
  (entry.1, entry.2.word)

theorem Scans.lexemes (scans : Scans s tokens s') :
    ∀ w ∈ tokens.map (·.2.word), IsLexeme w.text := by
  induction scans with
  | nil => simp
  | cons next more shift rest ih =>
    rw [List.map_cons]
    exact List.forall_mem_cons.2 ⟨isLexeme_of_next next more, ih⟩

/-- A text that is read to a gap at its end is laid out as its tokens. -/
theorem Scans.laid (scans : Scans s tokens s') (gap : IsGap s'.cursor.rest) :
    Laid IsGap (tokens.map (·.2.word)) s.cursor.rest := by
  induction scans with
  | nil => exact .nil gap
  | cons next more shift rest ih =>
    obtain ⟨gap', layout, split, -⟩ := nextToken_split next more
    rw [split]
    exact .cons layout (ih gap)

/-- With other gaps the same tokens lead to the same configuration. -/
theorem Scans.relaid (scans : Scans s tokens s') (gap : IsGap s'.cursor.rest) {text : List Char}
    (relaid : Relaid (tokens.map (·.2.word)) s.cursor.rest text) (last p : Position) :
    ∃ tokens' last' q gap', IsGap gap' ∧
      Scans ⟨s.configuration, s.place, last, ⟨text, p⟩⟩ tokens'
        ⟨s'.configuration, s'.place, last', ⟨gap', q⟩⟩ ∧
      tokens'.map unplaced = tokens.map unplaced := by
  induction scans generalizing text last p with
  | @nil s =>
    generalize s.cursor.rest = old at relaid
    cases relaid with
    | nil layout layout' kept => exact ⟨[], last, p, text, layout', .nil, rfl⟩
  | @cons s s' t cursor c place tokens next more shift tail ih =>
    have lexemes := tail.lexemes
    obtain ⟨-, -, split, found, -⟩ := nextToken_split next more
    obtain ⟨⟨d, inner, lexeme, visible, -⟩, -⟩ := isLexeme_of_next next more
    generalize old : s.cursor.rest = rest at relaid
    rw [List.map_cons] at relaid
    cases relaid with
    | @cons gap₀ gap' text₀ text' _ _ layout layout' kept relaid =>
      have same : cursor.rest = text₀ := by
        obtain ⟨gap₁, layout₁, split, -⟩ := nextToken_split next more
        have starts : ∀ rest, ∀ a ∈ (t.text ++ rest).head?, isLayout a = false := by
          intro rest a ha
          rw [lexeme] at ha
          cases ha
          exact visible
        have first := Cursor.skipLayout_gap layout₁ (starts cursor.rest) p
        have second := Cursor.skipLayout_gap layout (starts text₀) p
        rw [← split, old, show t.word.text = t.text from rfl, second] at first
        exact (List.append_cancel_left (Cursor.mk.inj first).1).symm
      rw [← same] at relaid
      have here := nextToken_again next more layout' (relaid.follows lexemes) last p
      obtain ⟨tokens', last', q, gap'', closing, scans, words⟩ :=
        ih gap relaid (p.after gap') (p.after (gap' ++ t.text))
      refine ⟨_ :: tokens', last', q, gap'', closing, .cons here more shift scans, ?_⟩
      rw [List.map_cons, List.map_cons, words]
      rfl

end

/-! ### Whole texts -/

/-- A text that is read by its tokens to a gap at its end gives the program that is read. -/
theorem Scans.read_all {text : List Char} {tokens : List (Place × Token)} {s : Stand} {p : Program}
    (scans : Scans (.start text) tokens s) (gap : IsGap s.cursor.rest)
    (program : s.configuration.program? = some p) : Parser.read text = .ok (p, tokens) := by
  obtain ⟨front, split, -, enough, -⟩ := scans.consumed
  have length : text.length = front.length + s.cursor.rest.length := by
    rw [← List.length_append, ← split]
    rfl
  obtain ⟨fuel, same⟩ : ∃ fuel, text.length + 1 = tokens.length + (fuel + 1) :=
    ⟨text.length - tokens.length, by omega⟩
  have whole := scans.read (fuel + 1)
  rw [s.read_gap gap program fuel, ← same] at whole
  rw [Parser.read]
  refine whole.trans ?_
  simp [Except.map]

/-- A text that is read is laid out as its tokens. -/
theorem laid_of_read {text : List Char} {p : Program} {tokens : List (Place × Token)}
    (read : Parser.read text = .ok (p, tokens)) : Laid IsGap (tokens.map (·.2.word)) text := by
  obtain ⟨s, scans, gap, -⟩ := Scans.of_read (s := .start text) read
  exact scans.laid gap

theorem lexemes_of_read {text : List Char} {p : Program} {tokens : List (Place × Token)}
    (read : Parser.read text = .ok (p, tokens)) :
    ∀ w ∈ tokens.map (·.2.word), IsLexeme w.text := by
  obtain ⟨s, scans, -⟩ := Scans.of_read (s := .start text) read
  exact scans.lexemes

/-- With other gaps the same words are read, as the same program. -/
theorem read_relaid {text text' : List Char} {p : Program} {tokens : List (Place × Token)}
    (read : Parser.read text = .ok (p, tokens))
    (relaid : Relaid (tokens.map (·.2.word)) text text') :
    ∃ tokens', Parser.read text' = .ok (p, tokens') ∧
      tokens'.map unplaced = tokens.map unplaced := by
  obtain ⟨s, scans, gap, program⟩ := Scans.of_read (s := .start text) read
  obtain ⟨tokens', last, q, gap', layout, scans', same⟩ := scans.relaid gap relaid .origin .origin
  exact ⟨tokens', scans'.read_all layout program, same⟩

end Parser

end PlcLang
