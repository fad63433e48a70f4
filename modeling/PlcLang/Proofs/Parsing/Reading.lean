import PlcLang.Proofs.Parsing.Words

/-! Words that are read one after another. -/

namespace PlcLang

open Word

namespace Parser

/-- From one configuration and place the words lead to another. -/
inductive Reads : Configuration × Place → List Word → Configuration × Place → Prop where
  | nil {here : Configuration × Place} : Reads here [] here
  | cons {c : Configuration} {place : Place} {w : Word} {ws : List Word}
      {next last : Configuration × Place} (legible : w.Legible)
      (wanted : w.kind ∈ place.accepts) (more : w.kind ≠ .finish)
      (sound : ∀ p, (w.token p).fault? place = none)
      (shift : ∀ p, c.shift (w.token p) = some next) (rest : Reads next ws last) :
      Reads (c, place) (w :: ws) last

theorem Reads.append {a b c : Configuration × Place} {ws vs : List Word} (first : Reads a ws b)
    (second : Reads b vs c) : Reads a (ws ++ vs) c := by
  induction first with
  | nil => exact second
  | cons legible wanted more sound shift _ ih => exact .cons legible wanted more sound shift (ih second)

section

variable {c : Configuration} {place : Place} {next : Configuration × Place}

theorem Reads.mark (s : Symbol) (wanted : .symbol s ∈ place.accepts)
    (shift : ∀ p, c.shift ((Word.mark s).token p) = some next) :
    Reads (c, place) [Word.mark s] next :=
  .cons (legible_mark s) wanted (by simp [Word.mark]) (fun _ => rfl) shift .nil

theorem Reads.key (k : Keyword) (wanted : .keyword k ∈ place.accepts)
    (shift : ∀ p, c.shift ((Word.key k).token p) = some next) :
    Reads (c, place) [Word.key k] next :=
  .cons (legible_key k) wanted (by simp [Word.key]) (fun _ => rfl) shift .nil

/-- A name is read as its text. -/
theorem Reads.ident {s : String} (named : IsName s) (wanted : .ident ∈ place.accepts)
    (next : String → Configuration × Place)
    (shift : ∀ p, c.shift ((Word.ident s).token p) = some (next (String.ofList s.toList))) :
    Reads (c, place) [Word.ident s] (next s) := by
  rw [String.ofList_toList] at shift
  exact .cons (legible_ident named) wanted (by simp [Word.ident]) (fun _ => rfl) shift .nil

end

end Parser

namespace Word

theorem ends_following (ws : List Word) : Ends (following ws) := by
  intro c hc
  cases ws with
  | nil => cases hc
  | cons w ws =>
    cases hc
    rfl

/-- Past the space before them the words remain. -/
theorem skipLayout_following {ws : List Word} (legible : ∀ w ∈ ws, w.Legible)
    (position : Position) :
    (Cursor.mk (following ws) position).skipLayout.rest = spaced ws := by
  cases ws with
  | nil => rfl
  | cons w ws =>
    obtain ⟨c, cs, text, visible⟩ := (legible w (by simp)).starts
    have space : isLayout ' ' = true := by decide
    simp [following, spaced, text, Cursor.skipLayout, Cursor.skipLayout.go, visible, space]

theorem skipLayout_spaced {ws : List Word} (legible : ∀ w ∈ ws, w.Legible)
    (position : Position) :
    (Cursor.mk (spaced ws) position).skipLayout.rest = spaced ws := by
  cases ws with
  | nil => rfl
  | cons w ws =>
    obtain ⟨c, cs, text, visible⟩ := (legible w (by simp)).starts
    simp [spaced, text, Cursor.skipLayout, Cursor.skipLayout.go, visible]

theorem length_le_spaced {ws : List Word} (legible : ∀ w ∈ ws, w.Legible) :
    ws.length ≤ (spaced ws).length := by
  have each : ∀ vs : List Word, vs.length ≤ (following vs).length := by
    intro vs
    induction vs with
    | nil => exact Nat.zero_le 0
    | cons v vs ih =>
      rw [following, List.flatMap_cons, ← following, List.length_append]
      simp only [List.length_cons]
      omega
  cases ws with
  | nil => exact Nat.zero_le 0
  | cons w ws =>
    obtain ⟨c, cs, text, -⟩ := (legible w (by simp)).starts
    have rest := each ws
    rw [spaced, text]
    simp only [List.length_cons, List.length_append]
    omega

/-- The next token is the next word. -/
theorem nextToken_spaced {w : Word} {ws : List Word} (legible : w.Legible) {place : Place}
    (wanted : w.kind ∈ place.accepts) (last : Position) {cursor : Cursor}
    (rest : cursor.skipLayout.rest = spaced (w :: ws)) :
    ∃ position position', nextToken place last cursor =
      .ok (w.token position, ⟨following ws, position'⟩) := by
  obtain ⟨c, cs, text, -⟩ := legible.starts
  have found := legible.found ⟨place.accepts⟩ (List.contains_iff_mem.2 wanted) (following ws)
    (ends_following ws)
  rw [text, List.cons_append] at found
  rw [spaced, text, List.cons_append] at rest
  refine ⟨cursor.skipLayout.position, w.text.foldl Position.advance cursor.skipLayout.position, ?_⟩
  rw [nextToken]
  simp only [rest, found]
  rw [token, text]
  rfl

end Word

namespace Parser

theorem Reads.legible {a b : Configuration × Place} {ws : List Word} (h : Reads a ws b) :
    ∀ w ∈ ws, w.Legible := by
  induction h with
  | nil =>
    intro w hw
    cases hw
  | cons legible _ _ _ _ _ ih =>
    intro w hw
    rcases List.mem_cons.1 hw with rfl | hw
    · exact legible
    · exact ih w hw

/-- Words that lead to where a program may end are read as the program, and no token among them has
a fault. -/
theorem Reads.readTokens {a b : Configuration × Place} {ws : List Word} (h : Reads a ws b)
    {p : Program} (ends : b.1.program? = some p) {fuel : Nat} (enough : ws.length < fuel)
    (last : Position) {cursor : Cursor} (rest : cursor.skipLayout.rest = spaced ws) :
    ∃ ts, Parser.readTokens fuel a.1 a.2 last cursor = .ok (p, ts) ∧
      ∀ place t, (place, t) ∈ ts → t.fault? place = none := by
  induction h generalizing fuel last cursor with
  | nil =>
    cases fuel with
    | zero => cases enough
    | succ fuel =>
      refine ⟨[], ?_, by simp⟩
      rw [spaced] at rest
      rw [Parser.readTokens, nextToken]
      simp only [rest, ↓reduceIte, ends]
  | @cons c place w ws next last' legible wanted more sound shift reads ih =>
    cases fuel with
    | zero => cases enough
    | succ fuel =>
      obtain ⟨position, position', token⟩ := nextToken_spaced legible wanted last rest
      have remaining := skipLayout_following reads.legible position'
      have fewer : ws.length < fuel := by simpa using enough
      obtain ⟨ts, read, faultless⟩ := ih ends fewer position remaining
      refine ⟨(place, w.token position) :: ts, ?_, ?_⟩
      · have kind : (w.token position).kind ≠ .finish := more
        rw [Parser.readTokens, token]
        simp only [if_neg kind, shift]
        rw [show (w.token position).position = position from rfl, read]
        rfl
      · intro place' t mem
        rcases List.mem_cons.1 mem with same | mem
        · cases same
          exact sound position
        · exact faultless place' t mem

/-- A text of words that lead from the start to where a program may end is that program's. -/
theorem Reads.parse {ws : List Word} {b : Configuration × Place} (h : Reads ({}, .start) ws b)
    {p : Program} (ends : b.1.program? = some p) :
    Program.parse (String.ofList (spaced ws)) = .ok p := by
  have enough : ws.length < (spaced ws).length + 1 := Nat.lt_succ_of_le (length_le_spaced h.legible)
  have start : (Cursor.ofText (spaced ws)).skipLayout.rest = spaced ws :=
    skipLayout_spaced h.legible .origin
  obtain ⟨ts, read, faultless⟩ := h.readTokens ends enough .origin start
  rw [Program.parse, String.toList_ofList, Parser.read, read]
  simp only
  split
  · rename_i e found
    obtain ⟨entry, mem, fault⟩ := List.exists_of_findSome?_eq_some found
    cases (faultless entry.1 entry.2 mem).symm.trans fault
  · rfl

end Parser

end PlcLang
