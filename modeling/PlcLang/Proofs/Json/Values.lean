import PlcLang.Proofs.Json.Strings

/-! A value without numbers that is written as a document reads back. -/

namespace PlcLang.Json

mutual
/-- A value is made of texts and truth values, without numbers, and no object has a key twice. -/
def Textual : Json → Prop
  | .null | .bool _ | .string _ => True
  | .integer _ | .real _ => False
  | .array items => AllTextual items
  | .object members => (members.map (·.1)).Nodup ∧ MembersTextual members

def AllTextual : List Json → Prop
  | [] => True
  | j :: rest => j.Textual ∧ AllTextual rest

def MembersTextual : List (String × Json) → Prop
  | [] => True
  | (_, j) :: rest => j.Textual ∧ MembersTextual rest
end

/-! ### Lines -/

/-- A line end with the space that begins the next line. -/
def newline (depth : Nat) : List Char :=
  '\n' :: List.replicate (2 * depth) ' '

theorem toList_pushn (n : Nat) : ("".pushn ' ' n).toList = List.replicate n ' ' := by
  induction n with
  | zero => rfl
  | succ n ih =>
    rw [String.pushn_eq_repeat_push] at ih ⊢
    rw [Nat.repeat, String.toList_push, ih, ← List.replicate_succ']

/-- The parts of a block, with a comma and a line end between any two. -/
def sequence (depth : Nat) (parts : List String) : List Char :=
  (',' :: newline depth).intercalate (parts.map String.toList)

theorem toList_block (depth : Nat) (opening closing part : String) (parts : List String) :
    (block depth opening closing (part :: parts)).toList =
      opening.toList ++ (newline (depth + 1) ++
        (sequence (depth + 1) (part :: parts) ++ (newline depth ++ closing.toList))) := by
  have line : ("\n" ++ "".pushn ' ' (2 * depth)).toList = newline depth := by
    rw [String.toList_append, toList_pushn]
    rfl
  have deeper : newline depth ++ [' ', ' '] = newline (depth + 1) := by
    have two : [' ', ' '] = List.replicate 2 ' ' := rfl
    rw [newline, newline, List.cons_append, two, List.replicate_append_replicate, Nat.mul_succ]
  have spaces : "  ".toList = [' ', ' '] := rfl
  have comma : ",".toList = [','] := rfl
  simp only [block, List.isEmpty_cons, Bool.false_eq_true, ↓reduceIte, String.toList_append,
    String.toList_intercalate, line, sequence, spaces, comma]
  rw [← deeper]
  simp only [List.append_assoc, List.cons_append, List.nil_append]

theorem toList_block_nil (depth : Nat) (opening closing : String) :
    (block depth opening closing []).toList = opening.toList ++ closing.toList :=
  String.toList_append

theorem sequence_single (depth : Nat) (part : String) :
    sequence depth [part] = part.toList := by
  simp [sequence]

theorem sequence_cons (depth : Nat) (part next : String) (parts : List String) :
    sequence depth (part :: next :: parts) =
      part.toList ++ (',' :: newline depth ++ sequence depth (next :: parts)) := by
  simp [sequence]

theorem skipSpace_newline (depth : Nat) (cs : List Char) :
    skipSpace (newline depth ++ cs) = skipSpace cs := by
  have spaces : ∀ c ∈ newline depth, isSpace c = true := by
    intro c hc
    rcases List.mem_cons.1 hc with rfl | hc
    · decide
    · rw [List.eq_of_mem_replicate hc]
      decide
  exact List.dropWhile_append_of_pos spaces

/-! ### Where a value begins -/

/-- A character that is no space and closes no bracket. -/
def Begins (c : Char) : Prop :=
  isSpace c = false ∧ c ≠ ']' ∧ c ≠ '\x7d'

instance (c : Char) : Decidable (Begins c) :=
  inferInstanceAs (Decidable (_ ∧ _))

/-- A text starts with something other than space or a closing bracket. -/
def Leads (cs : List Char) : Prop :=
  ∃ c ∈ cs.head?, Begins c

namespace Leads

variable {cs : List Char}

theorem append (h : Leads cs) (rest : List Char) : Leads (cs ++ rest) := by
  obtain ⟨c, first, begins⟩ := h
  cases cs with
  | nil => cases first
  | cons d cs => exact ⟨c, first, begins⟩

theorem skipSpace (h : Leads cs) : skipSpace cs = cs := by
  obtain ⟨c, first, begins⟩ := h
  cases cs with
  | nil => cases first
  | cons d cs =>
    cases first
    exact List.dropWhile_cons_of_neg (by simp [begins.1])

end Leads

theorem leads_string (s : String) : Leads (writeString s).toList := by
  rw [toList_writeString]
  exact ⟨'"', rfl, by decide⟩

theorem leads_write {j : Json} (textual : j.Textual) (depth : Nat) :
    Leads (j.write depth).toList := by
  cases j with
  | null =>
    rw [write]
    exact ⟨'n', rfl, by decide⟩
  | bool b =>
    rw [write]
    cases b with
    | false => exact ⟨'f', rfl, by decide⟩
    | true => exact ⟨'t', rfl, by decide⟩
  | integer n => exact textual.elim
  | real x => exact textual.elim
  | string s =>
    rw [write]
    exact leads_string s
  | array items =>
    rw [write]
    cases items with
    | nil =>
      rw [writeItems, toList_block_nil]
      exact ⟨'[', rfl, by decide⟩
    | cons j rest =>
      rw [writeItems, toList_block]
      exact ⟨'[', rfl, by decide⟩
  | object members =>
    rw [write]
    cases members with
    | nil =>
      rw [writeMembers, toList_block_nil]
      exact ⟨'\x7b', rfl, by decide⟩
    | cons m rest =>
      rw [writeMembers, toList_block]
      exact ⟨'\x7b', rfl, by decide⟩

/-- A member is its key and its value, with a colon and a space between them. -/
theorem toList_member (k : String) (text : String) :
    (writeString k ++ ": " ++ text).toList =
      (writeString k).toList ++ (':' :: ' ' :: text.toList) := by
  rw [String.toList_append, String.toList_append, List.append_assoc]
  rfl

theorem leads_member (k : String) (text : String) :
    Leads (writeString k ++ ": " ++ text).toList := by
  rw [toList_member]
  exact (leads_string k).append _

theorem leads_sequence {depth : Nat} {part : String} (parts : List String)
    (leads : Leads part.toList) : Leads (sequence depth (part :: parts)) := by
  cases parts with
  | nil => rwa [sequence_single]
  | cons next parts =>
    rw [sequence_cons]
    exact leads.append _

/-! ### Reading -/

theorem readString_written {fuel : Nat} {s : String} {rest : List Char}
    (enough : ('"' :: (escaped s.toList ++ ['"'])).length < fuel) :
    readString fuel [] (escaped s.toList ++ '"' :: rest) = some (s, rest) := by
  rw [readString_escaped (by simp at enough; omega)]
  simp

theorem readValue_string {fuel : Nat} {s : String} {rest : List Char}
    (enough : (writeString s).toList.length < fuel) :
    readValue fuel ((writeString s).toList ++ rest) = .ok (.string s, rest) := by
  rw [toList_writeString] at enough ⊢
  cases fuel with
  | zero => cases enough
  | succ fuel =>
    simp only [List.cons_append, List.append_assoc, List.nil_append, readValue,
      readString_written enough, orMalformed, bind, Except.bind]

/-- After an opening bracket come the items, if it is not closed at once. -/
theorem readValue_array {fuel : Nat} {cs inside : List Char} {items : List Json}
    {rest : List Char} (start : skipSpace cs = inside) (leads : Leads inside)
    (read : readItems fuel inside = .ok (items, rest)) :
    readValue (fuel + 1) ('[' :: cs) = .ok (.array items, rest) := by
  obtain ⟨c, first, begins⟩ := leads
  simp only [readValue, start]
  split
  · cases first
    exact absurd rfl begins.2.1
  · rw [read]
    rfl

/-- Keys that are all different keep their order. -/
theorem put_distinct {done members : List (String × Json)}
    (distinct : ((done ++ members).map (·.1)).Nodup) :
    members.foldl (fun ms (k, v) => Table.put k v ms) done = done ++ members := by
  induction members generalizing done with
  | nil => simp
  | cons m members ih =>
    obtain ⟨k, v⟩ := m
    have free : done.lookup k = none := by
      rw [List.lookup_eq_none_iff]
      intro p hp
      rw [List.map_append, List.nodup_append] at distinct
      have other := distinct.2.2 p.1 (List.mem_map_of_mem hp) k (by simp)
      simpa using Ne.symm other
    have next : (done ++ [(k, v)]) ++ members = done ++ (k, v) :: members := by simp
    rw [List.foldl_cons]
    change members.foldl _ (Table.put k v done) = _
    rw [Table.put_of_free v free, ih (by rwa [next]), next]

/-- After an opening brace come the members, if it is not closed at once. -/
theorem readValue_object {fuel : Nat} {cs inside : List Char} {members : List (String × Json)}
    {rest : List Char} (start : skipSpace cs = inside) (leads : Leads inside)
    (distinct : (members.map (·.1)).Nodup)
    (read : readMembers fuel inside = .ok (members, rest)) :
    readValue (fuel + 1) ('\x7b' :: cs) = .ok (.object members, rest) := by
  obtain ⟨c, first, begins⟩ := leads
  simp only [readValue, start]
  split
  · cases first
    exact absurd rfl begins.2.2
  · rw [read]
    have kept : members.foldl (fun ms (k, v) => Table.put k v ms) [] = [] ++ members :=
      put_distinct distinct
    simp only [bind, Except.bind, kept, List.nil_append]

section

variable {fuel : Nat} {k : String} {inside after rest : List Char} {j : Json}

/-- The last member of an object. -/
theorem readMembers_last (enough : (writeString k).toList.length < fuel + 1) (leads : Leads inside)
    (value : readValue fuel inside = .ok (j, after)) (closes : skipSpace after = '\x7d' :: rest) :
    readMembers (fuel + 1) ((writeString k).toList ++ (':' :: ' ' :: inside)) =
      .ok ([(k, j)], rest) := by
  rw [toList_writeString] at enough ⊢
  have colon : skipSpace (':' :: ' ' :: inside) = ':' :: ' ' :: inside := rfl
  have blank : skipSpace (' ' :: inside) = inside := leads.skipSpace
  simp only [List.cons_append, List.append_assoc, List.nil_append, readMembers,
    readString_written enough, colon, blank, value, closes, orMalformed, bind, Except.bind]

/-- A member with others behind it. -/
theorem readMembers_next (enough : (writeString k).toList.length < fuel + 1) (leads : Leads inside)
    (value : readValue fuel inside = .ok (j, after)) {more : List Char}
    (goes : skipSpace after = ',' :: more) {members : List (String × Json)}
    (others : readMembers fuel (skipSpace more) = .ok (members, rest)) :
    readMembers (fuel + 1) ((writeString k).toList ++ (':' :: ' ' :: inside)) =
      .ok ((k, j) :: members, rest) := by
  rw [toList_writeString] at enough ⊢
  have colon : skipSpace (':' :: ' ' :: inside) = ':' :: ' ' :: inside := rfl
  have blank : skipSpace (' ' :: inside) = inside := leads.skipSpace
  simp only [List.cons_append, List.append_assoc, List.nil_append, readMembers,
    readString_written enough, colon, blank, value, goes, others, orMalformed, bind, Except.bind]

end

mutual
/-- A value is read from what was written for it. -/
theorem readValue_write : (j : Json) → j.Textual → ∀ {depth fuel : Nat} {rest : List Char},
    (j.write depth).toList.length < fuel →
    readValue fuel ((j.write depth).toList ++ rest) = .ok (j, rest)
  | .null, _, depth, fuel, rest, enough => by
    cases fuel with
    | zero => cases enough
    | succ fuel =>
      rw [write]
      rfl
  | .bool b, _, depth, fuel, rest, enough => by
    cases fuel with
    | zero => cases enough
    | succ fuel =>
      rw [write]
      cases b <;> rfl
  | .string s, _, depth, fuel, rest, enough => by
    rw [write] at enough ⊢
    exact readValue_string enough
  | .array [], _, depth, fuel, rest, enough => by
    rw [write, writeItems, toList_block_nil] at enough ⊢
    cases fuel with
    | zero => cases enough
    | succ fuel => rfl
  | .array (j :: js), textual, depth, fuel, rest, enough => by
    have leads : Leads (sequence (depth + 1) (writeItems (depth + 1) (j :: js))) := by
      rw [writeItems]
      exact leads_sequence _ (leads_write textual.1 _)
    have closes : skipSpace (newline depth ++ ']' :: rest) = ']' :: rest := by
      rw [skipSpace_newline]
      rfl
    rw [write, writeItems, toList_block, ← writeItems] at enough ⊢
    cases fuel with
    | zero => cases enough
    | succ fuel =>
      have items : readItems fuel (sequence (depth + 1) (writeItems (depth + 1) (j :: js)) ++
          (newline depth ++ ']' :: rest)) = .ok (j :: js, rest) :=
        readItems_write (j :: js) nofun textual closes (by simp [newline] at enough; omega)
      rw [List.append_assoc, List.append_assoc, List.append_assoc, List.append_assoc]
      apply readValue_array _ (leads.append _) items
      exact (skipSpace_newline _ _).trans (leads.append _).skipSpace
  | .object [], _, depth, fuel, rest, enough => by
    rw [write, writeMembers, toList_block_nil] at enough ⊢
    cases fuel with
    | zero => cases enough
    | succ fuel => rfl
  | .object ((k, j) :: ms), textual, depth, fuel, rest, enough => by
    have leads : Leads (sequence (depth + 1) (writeMembers (depth + 1) ((k, j) :: ms))) := by
      rw [writeMembers]
      exact leads_sequence _ (leads_member k _)
    have closes : skipSpace (newline depth ++ '\x7d' :: rest) = '\x7d' :: rest := by
      rw [skipSpace_newline]
      rfl
    rw [write, writeMembers, toList_block, ← writeMembers] at enough ⊢
    cases fuel with
    | zero => cases enough
    | succ fuel =>
      have members : readMembers fuel
          (sequence (depth + 1) (writeMembers (depth + 1) ((k, j) :: ms)) ++
            (newline depth ++ '\x7d' :: rest)) = .ok ((k, j) :: ms, rest) :=
        readMembers_write ((k, j) :: ms) nofun textual.2 closes
          (by simp [newline] at enough; omega)
      rw [List.append_assoc, List.append_assoc, List.append_assoc, List.append_assoc]
      apply readValue_object _ (leads.append _) textual.1 members
      exact (skipSpace_newline _ _).trans (leads.append _).skipSpace

/-- Items are read up to and with the bracket behind them. -/
theorem readItems_write : (items : List Json) → items ≠ [] → AllTextual items →
    ∀ {depth fuel : Nat} {after rest : List Char}, skipSpace after = ']' :: rest →
    (sequence depth (writeItems depth items)).length + 1 < fuel →
    readItems fuel (sequence depth (writeItems depth items) ++ after) = .ok (items, rest)
  | [], there, _, _, _, _, _, _, _ => absurd rfl there
  | [j], _, ⟨textual, _⟩, depth, fuel, after, rest, closes, enough => by
    rw [writeItems, writeItems, sequence_single] at enough ⊢
    cases fuel with
    | zero => cases enough
    | succ fuel =>
      rw [readItems, readValue_write j textual (by omega)]
      simp only [bind, Except.bind, closes]
  | j :: next :: js, _, ⟨textual, others⟩, depth, fuel, after, rest, closes, enough => by
    have leads : Leads (sequence depth (writeItems depth (next :: js))) := by
      rw [writeItems]
      exact leads_sequence _ (leads_write others.1 _)
    rw [writeItems, writeItems, sequence_cons, ← writeItems] at enough ⊢
    cases fuel with
    | zero => cases enough
    | succ fuel =>
      have read : readItems fuel (sequence depth (writeItems depth (next :: js)) ++ after) =
          .ok (next :: js, rest) :=
        readItems_write (next :: js) nofun others closes (by simp [newline] at enough; omega)
      have comma (cs : List Char) : skipSpace (',' :: cs) = ',' :: cs := rfl
      rw [List.append_assoc, readItems, readValue_write j textual (by simp at enough; omega)]
      simp only [bind, Except.bind, List.cons_append, List.append_assoc, comma, skipSpace_newline,
        (leads.append after).skipSpace, read]

/-- Members are read up to and with the brace behind them. -/
theorem readMembers_write : (members : List (String × Json)) → members ≠ [] →
    MembersTextual members →
    ∀ {depth fuel : Nat} {after rest : List Char}, skipSpace after = '\x7d' :: rest →
    (sequence depth (writeMembers depth members)).length + 1 < fuel →
    readMembers fuel (sequence depth (writeMembers depth members) ++ after) = .ok (members, rest)
  | [], there, _, _, _, _, _, _, _ => absurd rfl there
  | [(k, j)], _, ⟨textual, _⟩, depth, fuel, after, rest, closes, enough => by
    rw [writeMembers, writeMembers, sequence_single, toList_member] at enough ⊢
    cases fuel with
    | zero => cases enough
    | succ fuel =>
      rw [List.append_assoc, List.cons_append, List.cons_append]
      have value : readValue fuel ((j.write depth).toList ++ after) = .ok (j, after) :=
        readValue_write j textual (by simp at enough; omega)
      exact readMembers_last (by simp at enough; omega) ((leads_write textual depth).append _)
        value closes
  | (k, j) :: (k', j') :: ms, _, ⟨textual, others⟩, depth, fuel, after, rest, closes,
      enough => by
    have leads : Leads (sequence depth (writeMembers depth ((k', j') :: ms))) := by
      rw [writeMembers]
      exact leads_sequence _ (leads_member k' _)
    rw [writeMembers, writeMembers, sequence_cons, ← writeMembers, toList_member] at enough ⊢
    cases fuel with
    | zero => cases enough
    | succ fuel =>
      have read : readMembers fuel (sequence depth (writeMembers depth ((k', j') :: ms)) ++ after) =
          .ok ((k', j') :: ms, rest) :=
        readMembers_write ((k', j') :: ms) nofun others closes
          (by simp [newline] at enough; omega)
      simp only [List.append_assoc, List.cons_append]
      have value (behind : List Char) :
          readValue fuel ((j.write depth).toList ++ behind) = .ok (j, behind) :=
        readValue_write j textual (by simp at enough; omega)
      have goes (cs : List Char) : skipSpace (',' :: cs) = ',' :: cs := rfl
      apply readMembers_next (by simp at enough; omega) ((leads_write textual depth).append _)
        (value _) (goes _)
      rw [skipSpace_newline, (leads.append after).skipSpace, read]
end

/-- A document is read from the text it was written as. -/
theorem ofText_toText {j : Json} (textual : j.Textual) : ofText j.toText = .ok j := by
  have start : skipSpace j.toText.toList = j.toText.toList := (leads_write textual 0).skipSpace
  have read : readValue (j.toText.toList.length + 1) j.toText.toList = .ok (j, []) := by
    have read : readValue (j.toText.toList.length + 1) (j.toText.toList ++ []) = .ok (j, []) :=
      readValue_write j textual (Nat.lt_succ_self _)
    rwa [List.append_nil] at read
  rw [ofText, start]
  simp only [read]
  rfl

end PlcLang.Json
