import Mathlib.Data.List.Induction
import PlcLang.Proofs.Parsing.Completion
import PlcLang.Proofs.Parsing.Limits

/-! A text that is broken is broken at the first token that no program has there. -/

namespace PlcLang

open PlcLang.Parser (Finishable Laid Reads Scans Stand Stuck)

/-! ### Lines and columns -/

/-- The line and the column of what stands behind a text. -/
def Position.behind (text : List Char) : Position :=
  ⟨text.count '\n' + 1, (text.reverse.takeWhile (· ≠ '\n')).length + 1⟩

theorem Position.after_origin (text : List Char) : origin.after text = behind text := by
  induction text using List.reverseRecOn with
  | nil => rfl
  | append_singleton text c ih =>
    rw [after_append, ih]
    show (behind text).advance c = _
    rw [advance, behind, behind, List.count_append, List.reverse_append]
    split
    · rename_i line
      simp [line]
    · rename_i other
      simp [other]

/-! ### The token that is in the way -/

/-- The words of some program, with its end, begin with these. -/
def Viable (ws : List Word) : Prop :=
  ∃ text p tokens, Parser.read text = .ok (p, tokens) ∧
    ws <+: tokens.map (·.2.word) ++ [⟨.finish, []⟩]

/-- Where an error stands: behind the words and the white space that are read, where the text goes
on with a token that no program has there, or with none at all. The end of a text has the position
of the last word. -/
def SyntaxError.Stands (words : List Word) (before after : List Char) : SyntaxError → Prop
  | .character c p =>
    after.head? = some c ∧ matchToken .anything after = none ∧ p = Position.behind before
  | .token t =>
    ¬ Viable (words ++ [t.word]) ∧
      if t.kind = .finish then
        after = [] ∧ ∃ lead last gap, words.getLast? = some last ∧
          before = lead ++ (last.text ++ gap) ∧ IsGap gap ∧ t.position = Position.behind lead
      else t.text ≠ [] ∧ t.text <+: after ∧ t.position = Position.behind before

theorem Word.spaced_starts {ws : List Word} (legible : ∀ w ∈ ws, w.Legible) :
    ∀ c ∈ (spaced ws).head?, isLayout c = false := by
  cases ws with
  | nil => simp [spaced]
  | cons w ws =>
    obtain ⟨c, cs, text, visible⟩ := (legible w List.mem_cons_self).starts
    intro d head
    rw [spaced, text] at head
    cases head
    exact visible

namespace Parser

/-- The same words lead to the same configuration. -/
theorem Scans.along {s₁ s₁' s₂ s₂' : Stand} {tokens₁ tokens₂ : List (Place × Token)}
    (one : Scans s₁ tokens₁ s₁') (two : Scans s₂ tokens₂ s₂')
    (configuration : s₂.configuration = s₁.configuration) (place : s₂.place = s₁.place)
    (words : tokens₁.map (·.2.word) <+: tokens₂.map (·.2.word)) :
    ∃ s tokens, Scans s tokens s₂' ∧ s.configuration = s₁'.configuration ∧ s.place = s₁'.place ∧
      tokens₂.map (·.2.word) = tokens₁.map (·.2.word) ++ tokens.map (·.2.word) := by
  induction one generalizing s₂ tokens₂ with
  | nil => exact ⟨s₂, tokens₂, two, configuration, place, rfl⟩
  | @cons s s' t cursor c place₁ tokens next more shift rest ih =>
    cases two with
    | nil => exact absurd (List.prefix_nil.1 words) (by simp)
    | @cons _ _ u cursor' c' place₂ tokens' next' more' shift' rest' =>
      obtain ⟨first, others⟩ := List.cons_prefix_cons.1 words
      have first : t.word = u.word := first
      have same := Configuration.shift_word first s.configuration
      rw [configuration, ← same, shift] at shift'
      cases shift'
      obtain ⟨s₃, tokens₃, scans, at_c, at_place, split⟩ := ih rest' rfl rfl others
      refine ⟨s₃, tokens₃, scans, at_c, at_place, ?_⟩
      rw [List.map_cons, List.map_cons, split, first]
      rfl

/-- Where a token is looked for, one that is stuck does not stand. -/
theorem Stuck.not_next {s s₂ : Stand} {t u : Token} {cursor : Cursor}
    {next' : Configuration × Place} (stuck : Stuck s (.token t))
    (place : s₂.place = s.place) (next : nextToken s₂.place s₂.last s₂.cursor = .ok (u, cursor))
    (more : u.kind ≠ .finish) (shift : s.configuration.shift u = some next')
    (same : u.word = t.word) : False := by
  cases stuck with
  | token _ _ none =>
    rw [Configuration.shift_word same, none] at shift
    cases shift
  | finish _ ends => exact more ((congrArg Word.kind same).trans ends)
  | lexing failed =>
    obtain ⟨-, -, -, found, -⟩ := nextToken_split next more
    have wanted := (matchToken_kind found).1
    rw [show u.kind = t.kind from congrArg Word.kind same, place] at wanted
    obtain ⟨none, ⟨rest, any⟩, -⟩ := nextToken_error failed
    exact matchToken_ne_none any wanted none

/-- No program goes on with the token that is in the way. -/
theorem Stuck.not_viable {text : List Char} {tokens : List (Place × Token)} {s : Stand} {t : Token}
    (scans : Scans (.start text) tokens s) (stuck : Stuck s (.token t)) :
    ¬ Viable (tokens.map (·.2.word) ++ [t.word]) := by
  rintro ⟨text', p, tokens', read, words⟩
  obtain ⟨s₂, two, -, program⟩ := Scans.of_read (s := .start text') read
  have fewer : (tokens.map (·.2.word)).length ≤ (tokens'.map (·.2.word)).length := by
    have length := words.length_le
    simp only [List.length_append, List.length_map, List.length_singleton] at length ⊢
    omega
  have front : tokens.map (·.2.word) <+: tokens'.map (·.2.word) :=
    List.prefix_of_prefix_length_le ((List.prefix_append _ _).trans words)
      (List.prefix_append _ _) fewer
  obtain ⟨s₃, rest, more, configuration, place, split⟩ := scans.along two rfl rfl front
  rw [split, List.append_assoc, List.prefix_append_right_inj] at words
  cases more with
  | nil =>
    have same : t.word = ⟨.finish, []⟩ := (List.cons_prefix_cons.1 words).1
    cases stuck with
    | token _ some => exact some (congrArg Word.kind same)
    | finish _ _ none =>
      rw [configuration, none] at program
      cases program
    | lexing failed =>
      obtain ⟨-, ⟨rest, any⟩, -⟩ := nextToken_error failed
      rw [show t.kind = .finish from congrArg Word.kind same] at any
      exact matchToken_eq_some any
  | @cons _ _ u cursor c place' rest next some shift tail =>
    have same : t.word = u.word := (List.cons_prefix_cons.1 words).1
    rw [configuration] at shift
    exact stuck.not_next place next some shift same.symm

/-- Behind what is read of a text, and white space, another text goes on to the end of a program. -/
theorem Scans.completed {text front gap : List Char} {tokens : List (Place × Token)} {s : Stand}
    (scans : Scans (.start text) tokens s) (split : text = front ++ s.cursor.rest)
    (enough : tokens.length ≤ front.length) (layout : IsGap gap) :
    ∃ w p more, Parser.read (front ++ gap ++ ' ' :: w) = .ok (p, tokens ++ more) := by
  obtain ⟨ws, last, p, reads, ends⟩ := (scans.placed trivial).finishable
  have follows : Follows s.cursor.rest (gap ++ ' ' :: Word.spaced ws) :=
    follows_of_layout fun c head => by
      cases gap with
      | nil =>
        cases head
        rfl
      | cons d gap =>
        cases head
        exact layout _ List.mem_cons_self
  have moved := scans.before split follows
  have spaces : IsGap (gap ++ [' ']) :=
    List.forall_mem_append.2 ⟨layout, List.forall_mem_singleton.2 rfl⟩
  have there : (Cursor.mk (gap ++ ' ' :: Word.spaced ws) s.cursor.position).skipLayout.rest =
      Word.spaced ws := by
    have skip := Cursor.skipLayout_gap spaces (Word.spaced_starts reads.legible) s.cursor.position
    rw [List.append_assoc] at skip
    exact congrArg Cursor.rest skip
  obtain ⟨fuel, same⟩ : ∃ fuel, (front ++ gap ++ ' ' :: Word.spaced ws).length + 1 =
      tokens.length + fuel := ⟨_, (Nat.add_sub_cancel' (by simp; omega)).symm⟩
  have short : ws.length < fuel := by
    have words := Word.length_le_spaced reads.legible
    simp only [List.length_append, List.length_cons] at same
    omega
  obtain ⟨more, read, -⟩ := reads.readTokens ends short s.last there
  have whole := moved.read fuel
  have tail : Stand.read { s with cursor := ⟨gap ++ ' ' :: Word.spaced ws, s.cursor.position⟩ }
      fuel = .ok (p, more) := read
  rw [tail, ← same, ← List.append_assoc] at whole
  exact ⟨Word.spaced ws, p, more, whole⟩

/-- Where a reader is stuck, it is at the token or the character that the error names. -/
theorem Stuck.stands {text before : List Char} {tokens : List (Place × Token)} {s : Stand}
    {e : SyntaxError} (scans : Scans (.start text) tokens s) (stuck : Stuck s e)
    (split : text = before ++ s.cursor.skipLayout.rest)
    (position : s.cursor.skipLayout.position = Position.behind before) :
    e.Stands (tokens.map (·.2.word)) before s.cursor.skipLayout.rest := by
  cases e with
  | character c p =>
    cases stuck with
    | lexing failed =>
      obtain ⟨head, none, here⟩ := nextToken_error failed
      exact ⟨head, none, here.trans position⟩
  | token t =>
    refine ⟨stuck.not_viable scans, ?_⟩
    cases stuck with
    | lexing failed =>
      obtain ⟨-, ⟨rest, any⟩, here⟩ := nextToken_error failed
      have more : t.kind ≠ .finish := by
        intro ends
        rw [ends] at any
        exact matchToken_eq_some any
      obtain ⟨same, ⟨c, inner, lexeme, -⟩, -⟩ := matchToken_split any
      rw [if_neg more]
      exact ⟨by rw [lexeme]; exact List.cons_ne_nil c inner, ⟨rest, same.symm⟩,
        here.trans position⟩
    | token next more =>
      obtain ⟨some, start, here⟩ := nextToken_here next more
      rw [if_neg more]
      exact ⟨some, start, here.trans position⟩
    | finish next ends none =>
      obtain ⟨layout, same⟩ := nextToken_finish next ends
      have ended : s.cursor.skipLayout.rest = [] := congrArg Cursor.rest
        (Cursor.skipLayout_all layout s.cursor.position)
      obtain ⟨front, parts, -, -, -, last⟩ := scans.consumed
      have whole : before = front ++ s.cursor.rest := by
        rw [ended, List.append_nil] at split
        rw [← split]
        exact parts
      rw [if_pos ends]
      refine ⟨ended, ?_⟩
      rcases last with ⟨rfl, -⟩ | ⟨lead, place, u, final, rfl, at_lead, last⟩
      · cases scans
        cases none
      · refine ⟨lead, u.word, s.cursor.rest, ?_, ?_, layout, ?_⟩
        · rw [List.getLast?_map, final]
          rfl
        · rw [whole, List.append_assoc]
          rfl
        · rw [same, ← Position.after_origin]
          exact last.trans at_lead

end Parser

/-- Only a text whose tokens do not lead to the end of a program is broken. -/
theorem read_of_broken {text : String} {e : SyntaxError}
    (broken : Program.parse text = .error (.broken e)) : Parser.read text.toList = .error e := by
  rw [Program.parse] at broken
  split at broken
  · rename_i failed
    cases broken
    exact failed
  · split at broken
    · rename_i fault
      cases broken
      obtain ⟨entry, -, oversized⟩ := List.exists_of_findSome?_eq_some fault
      cases Token.fault?_eq_some.1 oversized
    · cases broken

/-- A text that is broken begins with words of a program and white space, behind which another text
goes on to the end of a program. The error stands there, and its token is the first that no program
has there. -/
theorem broken_at_first_impossible {text : String} {e : SyntaxError}
    (broken : Program.parse text = .error (.broken e)) :
    ∃ before after words, text.toList = before ++ after ∧ Laid IsGap words before ∧
      (∃ w p tokens, Parser.read (before ++ ' ' :: w) = .ok (p, tokens) ∧
        words <+: tokens.map (·.2.word)) ∧
      e.Stands words before after := by
  obtain ⟨tokens, s, scans, stuck⟩ := Scans.of_failed (s := .start text.toList)
    (Nat.lt_succ_self _) (read_of_broken broken)
  obtain ⟨front, split, position, enough, -⟩ := scans.consumed
  obtain ⟨gap, layout, parts, behind, starts⟩ := s.cursor.skipLayout_split
  have whole : text.toList = front ++ gap ++ s.cursor.skipLayout.rest := by
    rw [List.append_assoc, ← parts]
    exact split
  refine ⟨front ++ gap, s.cursor.skipLayout.rest, tokens.map (·.2.word), whole, ?_, ?_, ?_⟩
  · have alone := scans.before split (follows_of_layout fun c head =>
      layout c (List.mem_of_mem_head? head))
    exact alone.laid layout
  · obtain ⟨w, p, more, read⟩ := scans.completed split enough layout
    exact ⟨w, p, tokens ++ more, read, by simp⟩
  · refine stuck.stands scans whole ?_
    rw [behind, position, ← Position.after_append, ← Position.after_origin]
    rfl

/-- Behind `RETURN` a program has an expression, and no semicolon: the error has the position of the
semicolon, and what is before it is the start of a program. -/
theorem broken_at_first_impossible_return :
    Program.parse "FUN main() DO\n  RETURN ;" =
        .error (.broken (.token ⟨.symbol .semicolon, [';'], ⟨2, 10⟩⟩)) ∧
      ∃ before after, "FUN main() DO\n  RETURN ;".toList = before ++ after ∧
        (∃ w p tokens, Parser.read (before ++ ' ' :: w) = .ok (p, tokens)) ∧
        [';'] <+: after ∧ Position.behind before = ⟨2, 10⟩ := by
  have broken : Program.parse "FUN main() DO\n  RETURN ;" =
      .error (.broken (.token ⟨.symbol .semicolon, [';'], ⟨2, 10⟩⟩)) := by cbv
  obtain ⟨before, after, words, split, -, ⟨w, p, tokens, read, -⟩, -, stands⟩ :=
    broken_at_first_impossible broken
  rw [if_neg (by decide)] at stands
  obtain ⟨-, start, position⟩ := stands
  exact ⟨broken, before, after, split, ⟨w, p, tokens, read⟩, start, position.symm⟩

end PlcLang
