import PlcLang.Proofs.Json.Values
import PlcLang.Text.Lines

/-! The lines of a document end with line feeds only, so that a file gives it back as it was. -/

namespace PlcLang

/-- Text without carriage returns is left as it is. -/
theorem Text.unifyLineEnds_of_unbroken {cs : List Char} (unbroken : '\r' ∉ cs) :
    unifyLineEnds cs = cs := by
  induction cs with
  | nil => rfl
  | cons c cs ih =>
    obtain ⟨first, others⟩ := not_or.1 (mt List.mem_cons.2 unbroken)
    rw [unifyLineEnds.eq_def]
    split
    · contradiction
    · rename_i same
      cases same
      exact absurd rfl first
    · rename_i same
      cases same
      exact absurd rfl first
    · rename_i same
      cases same
      rw [ih others]

namespace Json

theorem newline_unbroken (depth : Nat) : '\r' ∉ newline depth := by
  simp [newline]

theorem writeString_unbroken (s : String) : '\r' ∉ (writeString s).toList := by
  simp [toList_writeString, escaped_unbroken]

/-- A block is as its parts are. -/
theorem block_unbroken {depth : Nat} {opening closing : String} {parts : List String}
    (brackets : '\r' ∉ opening.toList ∧ '\r' ∉ closing.toList)
    (each : ∀ part ∈ parts, '\r' ∉ part.toList) :
    '\r' ∉ (block depth opening closing parts).toList := by
  have inside (depth : Nat) : '\r' ∉ sequence depth parts := by
    induction parts with
    | nil => simp [sequence]
    | cons part parts ih =>
      obtain ⟨first, others⟩ := List.forall_mem_cons.1 each
      cases parts with
      | nil => rwa [sequence_single]
      | cons next parts =>
        rw [sequence_cons]
        simp [first, newline_unbroken, ih others]
  cases parts with
  | nil => simp [toList_block_nil, brackets]
  | cons part parts =>
    rw [toList_block]
    simp [brackets, inside, newline_unbroken]

mutual
theorem write_unbroken : (j : Json) → j.Textual → ∀ depth, '\r' ∉ (j.write depth).toList
  | .null, _, _ => by
    rw [write]
    decide
  | .bool b, _, _ => by
    rw [write]
    cases b <;> decide
  | .string s, _, _ => by
    rw [write]
    exact writeString_unbroken s
  | .array items, textual, depth => by
    rw [write]
    exact block_unbroken (by decide) (writeItems_unbroken items textual _)
  | .object members, textual, depth => by
    rw [write]
    exact block_unbroken (by decide) (writeMembers_unbroken members textual.2 _)

theorem writeItems_unbroken : (items : List Json) → AllTextual items → ∀ depth,
    ∀ part ∈ writeItems depth items, '\r' ∉ part.toList
  | [], _, _ => List.forall_mem_nil _
  | j :: rest, ⟨textual, others⟩, depth =>
    List.forall_mem_cons.2 ⟨write_unbroken j textual depth, writeItems_unbroken rest others depth⟩

theorem writeMembers_unbroken : (members : List (String × Json)) → MembersTextual members →
    ∀ depth, ∀ part ∈ writeMembers depth members, '\r' ∉ part.toList
  | [], _, _ => List.forall_mem_nil _
  | (k, j) :: rest, ⟨textual, others⟩, depth => by
    refine List.forall_mem_cons.2 ⟨?_, writeMembers_unbroken rest others depth⟩
    rw [toList_member]
    simp [writeString_unbroken, write_unbroken j textual depth]
end

/-- A document that is written to a file is read from it. -/
theorem ofText_file {j : Json} (textual : j.Textual) :
    ofText (String.ofList (Text.unifyLineEnds j.toText.toList)) = .ok j := by
  have unbroken : '\r' ∉ j.toText.toList := write_unbroken j textual 0
  rw [Text.unifyLineEnds_of_unbroken unbroken, String.ofList_toList]
  exact ofText_toText textual

end Json

end PlcLang
