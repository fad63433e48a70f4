import PlcLang.Proofs.Parsing.Limits

namespace PlcLang

/-- A token is of the right size just where it has no fault. -/
theorem Token.fault?_eq_none {place : Place} {t : Token} :
    t.fault? place = none ↔ ∀ e, ¬ t.Oversized place e := by
  rw [Option.eq_none_iff_forall_ne_some]
  exact forall_congr' fun e => not_congr Token.fault?_eq_some

/-- A text whose tokens do not stand together as those of a program do is broken, and no other text
is. In a text whose tokens do, every one is what its kind is, whatever its length: a numeral, one
character or a string of them. The text then gives its program, unless a number in it is out of
size. Then it is refused for the first such number, which has more digits than an integer may have
where it is read. -/
theorem parse_limits (text : String) :
    match Parser.read text.toList with
    | .error e => Program.parse text = .error (.broken e)
    | .ok (p, tokens) =>
      (∀ place t, (place, t) ∈ tokens → t.Readable) ∧
      ((Program.parse text = .ok p ∧ ∀ place t e, (place, t) ∈ tokens → ¬ t.Oversized place e) ∨
        ∃ before place t after e, tokens = before ++ (place, t) :: after ∧
          (∀ place t e, (place, t) ∈ before → ¬ t.Oversized place e) ∧ t.Oversized place e ∧
          Integer.digitLimit < t.text.length ∧ Program.parse text = .error e) := by
  rw [Program.parse]
  cases read : Parser.read text.toList with
  | error e => rfl
  | ok result =>
    obtain ⟨p, tokens⟩ := result
    have readable : ∀ place t, (place, t) ∈ tokens → t.Readable := fun place t mem =>
      (Parser.readTokens_found read place t mem).readable
    refine ⟨readable, ?_⟩
    simp only
    cases first : tokens.findSome? fun entry => entry.2.fault? entry.1 with
    | none =>
      refine .inl ⟨rfl, fun place t e mem => ?_⟩
      have sound := List.findSome?_eq_none_iff.1 first (place, t) mem
      exact Token.fault?_eq_none.1 sound e
    | some e =>
      obtain ⟨before, ⟨place, t⟩, after, same, fault, sound⟩ := List.findSome?_eq_some_iff.1 first
      have oversized := Token.fault?_eq_some.1 fault
      have mem : (place, t) ∈ tokens := by
        rw [same]
        exact List.mem_append_right _ List.mem_cons_self
      refine .inr ⟨before, place, t, after, e, same, fun place t e mem => ?_, oversized,
        oversized.long (readable place t mem), rfl⟩
      exact Token.fault?_eq_none.1 (sound (place, t) mem) e

/-- A text that is refused for another reason than that it is broken has the tokens of a program. -/
theorem read_of_parse {text : String} {e : ParseError} (failed : Program.parse text = .error e)
    (whole : ∀ b, e ≠ .broken b) : ∃ p tokens, Parser.read text.toList = .ok (p, tokens) := by
  rw [Program.parse] at failed
  split at failed
  · cases failed
    exact (whole _ rfl).elim
  · rename_i p tokens read
    exact ⟨p, tokens, read⟩

/-- A constant with one digit more than an integer may have. -/
def lengthyConstant : List Char :=
  "VAL x: Integer = ".toList ++ List.replicate 4301 '1' ++ [';']

/-- Its tokens stand together as those of a program do, but it is refused. -/
theorem parse_limits_lengthy :
    (∃ p tokens, Parser.read (String.ofList lengthyConstant).toList = .ok (p, tokens)) ∧
      Program.parse (String.ofList lengthyConstant) = .error (.longInteger 4301) := by
  have long : (match Program.parse (String.ofList lengthyConstant) with
      | .error (.longInteger 4301) => true
      | _ => false) = true := by
    rw [Program.parse, String.toList_ofList]
    decide +kernel
  have failed : Program.parse (String.ofList lengthyConstant) = .error (.longInteger 4301) := by
    generalize Program.parse (String.ofList lengthyConstant) = result at long
    split at long
    · rfl
    · cases long
  refine ⟨read_of_parse failed fun b same => ?_, failed⟩
  cases same

end PlcLang
