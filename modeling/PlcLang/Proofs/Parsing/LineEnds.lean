import PlcLang.Proofs.Parsing.Scans
import PlcLang.Text.Lines

/-! Unified line ends are other white space between the same words. -/

namespace PlcLang

open Text (unifyLineEnds)

/-! ### What unified line ends stand for -/

/-- A first character stands for itself, or for a line end. -/
theorem unifyLineEnds_eq_cons {text r : List Char} {c : Char} (h : unifyLineEnds text = c :: r) :
    ∃ head rest, text = head ++ rest ∧ unifyLineEnds rest = r ∧ head ≠ [] ∧
      (isLayout c = true → IsGap head) ∧ (c ≠ '\n' → head = [c]) := by
  rw [Text.unifyLineEnds.eq_def] at h
  split at h
  · cases h
  · rename_i rest
    cases h
    exact ⟨['\r', '\n'], rest, rfl, rfl, by simp, fun _ => by simp [IsGap, isLayout],
      fun other => absurd rfl other⟩
  · rename_i rest _
    cases h
    exact ⟨['\r'], rest, rfl, rfl, by simp, fun _ => by simp [IsGap, isLayout],
      fun other => absurd rfl other⟩
  · rename_i rest _ _
    cases h
    exact ⟨[c], rest, rfl, rfl, by simp, fun layout => by simpa [IsGap] using layout,
      fun _ => rfl⟩

theorem unifyLineEnds_eq_nil {text : List Char} (h : unifyLineEnds text = []) : text = [] := by
  rw [Text.unifyLineEnds.eq_def] at h
  split at h
  · rfl
  all_goals cases h

/-- Before what unified white space stands for there is white space. -/
theorem unifyLineEnds_eq_gap {text gap r : List Char} (layout : IsGap gap)
    (h : unifyLineEnds text = gap ++ r) :
    ∃ gap' rest, text = gap' ++ rest ∧ unifyLineEnds rest = r ∧ IsGap gap' ∧
      (gap' = [] → gap = []) := by
  induction gap generalizing text with
  | nil => exact ⟨[], text, rfl, h, List.forall_mem_nil _, fun _ => rfl⟩
  | cons c gap ih =>
    obtain ⟨head, rest, rfl, more, some, white, -⟩ := unifyLineEnds_eq_cons h
    have both := List.forall_mem_cons.1 layout
    obtain ⟨gap', rest', rfl, unified, layout', -⟩ := ih both.2 more
    refine ⟨head ++ gap', rest', by simp, unified, ?_, ?_⟩
    · exact List.forall_mem_append.2 ⟨white both.1, layout'⟩
    · exact fun none => absurd (List.append_eq_nil_iff.1 none).1 some

/-- A word in one line stands for itself. -/
theorem unifyLineEnds_eq_word {text w r : List Char} (unbroken : '\n' ∉ w)
    (h : unifyLineEnds text = w ++ r) : ∃ rest, text = w ++ rest ∧ unifyLineEnds rest = r := by
  induction w generalizing text with
  | nil => exact ⟨text, rfl, h⟩
  | cons c w ih =>
    obtain ⟨first, others⟩ := not_or.1 (mt List.mem_cons.2 unbroken)
    obtain ⟨head, rest, rfl, more, -, -, same⟩ := unifyLineEnds_eq_cons h
    obtain ⟨rest', rfl, unified⟩ := ih others more
    exact ⟨rest', by rw [same (Ne.symm first)]; rfl, unified⟩

/-! ### What line ends are unified to -/

theorem isGap_unifyLineEnds {gap : List Char} (layout : IsGap gap) :
    IsGap (unifyLineEnds gap) := by
  fun_induction unifyLineEnds gap with
  | case1 => exact layout
  | case2 rest ih =>
    have others := (List.forall_mem_cons.1 (List.forall_mem_cons.1 layout).2).2
    exact List.forall_mem_cons.2 ⟨by decide, ih others⟩
  | case3 rest _ ih =>
    exact List.forall_mem_cons.2 ⟨by decide, ih (List.forall_mem_cons.1 layout).2⟩
  | case4 c rest _ _ ih =>
    obtain ⟨first, others⟩ := List.forall_mem_cons.1 layout
    exact List.forall_mem_cons.2 ⟨first, ih others⟩

/-- A text is unified apart from what follows it, unless a line feed follows. -/
theorem unifyLineEnds_append {a b : List Char} (apart : b.head? ≠ some '\n') :
    unifyLineEnds (a ++ b) = unifyLineEnds a ++ unifyLineEnds b := by
  fun_induction unifyLineEnds a with
  | case1 => rfl
  | case2 rest ih => rw [List.cons_append, List.cons_append, unifyLineEnds, ih, List.cons_append]
  | case3 rest alone ih =>
    rw [List.cons_append, unifyLineEnds, ih, List.cons_append]
    intro rest' same
    cases rest with
    | nil => exact apart (congrArg List.head? same)
    | cons d rest =>
      obtain ⟨rfl, -⟩ := List.cons.inj same
      exact alone rest rfl
  | case4 c rest pair single ih =>
    rw [List.cons_append, unifyLineEnds, ih, List.cons_append]
    · intro rest' first same
      obtain rfl := first
      exact single rfl
    · intro same
      exact single same

/-- A word without carriage returns is left as it is. -/
theorem unifyLineEnds_word {w : List Char} (unbroken : '\r' ∉ w) (rest : List Char) :
    unifyLineEnds (w ++ rest) = w ++ unifyLineEnds rest := by
  induction w with
  | nil => rfl
  | cons c w ih =>
    obtain ⟨first, others⟩ := not_or.1 (mt List.mem_cons.2 unbroken)
    have plain : c ≠ '\r' := Ne.symm first
    rw [List.cons_append, unifyLineEnds, ih others]
    · rfl
    · exact fun _ same _ => plain same
    · exact plain

/-! ### Words with unified line ends between them -/

namespace Parser

/-- Unified line ends are other white space. -/
theorem Laid.unify {ws : List Word} {text : List Char} (laid : Laid IsGap ws text)
    (lexemes : ∀ w ∈ ws, IsLexeme w.text) : Relaid ws text (unifyLineEnds text) := by
  induction laid with
  | nil layout => exact .nil layout (isGap_unifyLineEnds layout) unifyLineEnds_eq_nil
  | @cons gap text w ws layout more ih =>
    obtain ⟨word, others⟩ := List.forall_mem_cons.1 lexemes
    obtain ⟨⟨c, inner, lexeme, -⟩, unbroken⟩ := word
    have apart : (w.text ++ text).head? ≠ some '\n' := by
      rw [lexeme]
      intro same
      cases same
      exact (unbroken '\n' (by simp [lexeme])).1 rfl
    have whole : '\r' ∉ w.text := fun mem => (unbroken _ mem).2 rfl
    rw [unifyLineEnds_append apart, unifyLineEnds_word whole]
    exact .cons layout (isGap_unifyLineEnds layout) unifyLineEnds_eq_nil (ih others)

/-- And the white space that there was is other white space than unified line ends. -/
theorem Laid.of_unify {ws : List Word} {text : List Char} (laid : Laid IsGap ws (unifyLineEnds text))
    (lexemes : ∀ w ∈ ws, IsLexeme w.text) : Relaid ws (unifyLineEnds text) text := by
  generalize unified : unifyLineEnds text = text' at laid
  induction laid generalizing text with
  | nil layout =>
    obtain ⟨gap, rest, rfl, none, layout', kept⟩ :=
      unifyLineEnds_eq_gap layout (unified.trans (List.append_nil _).symm)
    obtain rfl := unifyLineEnds_eq_nil none
    rw [List.append_nil]
    exact .nil layout layout' kept
  | @cons gap text' w ws layout more ih =>
    obtain ⟨word, others⟩ := List.forall_mem_cons.1 lexemes
    have whole : '\n' ∉ w.text := fun mem => (word.unbroken _ mem).1 rfl
    obtain ⟨gap', rest, rfl, same, layout', kept⟩ := unifyLineEnds_eq_gap layout unified
    obtain ⟨rest', rfl, tail⟩ := unifyLineEnds_eq_word whole same
    exact .cons layout layout' kept (ih others tail)

end Parser

end PlcLang
