import PlcLang.Proofs.Parsing.Programs

namespace PlcLang

open Word

/-- A function that computes with operators of three levels and a negative number. -/
def Program.sum : Program :=
  ⟨[], [⟨"main", [], some "Integer", [.ret (.binary .plus (.literal (.integer 1))
    (.binary .times (.literal (.integer 2)) (.literal (.integer (-3)))))]⟩]⟩

/-- A program with one constant. -/
def Program.constant (value : Literal) : Program :=
  ⟨[⟨"x", false, "Decimal", some (.literal value)⟩], []⟩

theorem constant_names : IsName "x" ∧ IsName "Decimal" :=
  ⟨⟨⟨'x', [], rfl, by decide, List.all_eq_true.1 rfl⟩, fun k => by cases k <;> decide⟩,
    ⟨'D', "ecimal".toList, rfl, by decide, List.all_eq_true.1 rfl⟩, fun k => by cases k <;> decide⟩

/-- Behind a minus sign, the constant is what the token there is read as. -/
theorem constant_reads {w : Word} {value : Literal} (legible : w.Legible)
    (wanted : w.kind ∈ Place.sign.accepts) (sound : ∀ p, (w.token p).fault? .sign = none)
    (known : ∀ p, (w.token p).negative? = some value) :
    Program.parse (String.ofList (spaced ([key .VAL, ident "x", mark .colon, ident "Decimal"] ++
      [mark .equal] ++ [mark .minus, w] ++ [mark .semicolon]))) =
        .ok (Program.constant value) := by
  let goal : Parser.Goal := .global "x" false "Decimal"
  have header : Parser.Reads ({}, .start) [key .VAL, ident "x", mark .colon, ident "Decimal"]
      (⟨[], [], [], .globalType .constant "x" "Decimal"⟩, .constantType) :=
    Parser.global_header_reads false constant_names.1 constant_names.2
  have equal : Parser.Reads (⟨[], [], [], .globalType .constant "x" "Decimal"⟩, .constantType)
      [mark .equal] (Parser.begun [] [] [] goal) :=
    Parser.Reads.mark .equal (by decide) fun _ => rfl
  have ready : Parser.Ready (Parser.begun [] [] [] goal).1 .operandWanted goal [] [] :=
    Parser.ready_wanted {} goal [] []
  have number := ready.negative legible wanted sound known
  have done := Parser.done_complete {} goal [] [] (.literal value)
  have semicolon : Parser.Reads _ [mark .semicolon]
      (⟨(Program.constant value).globals, [], [], .top false⟩, .start) :=
    done.mark (by decide) rfl
  exact (((header.append equal).append number).append semicolon).parse rfl

/-- A constant behind a minus sign is what the sign makes of it. -/
theorem parse_constant {c places : Nat} (some_place : places ≠ 0)
    (range : (Decimal.finite false c (-places)).inRange = true) {d : Decimal}
    (negated : (Decimal.finite false c (-places)).neg .sign = .ok d) :
    Program.parse (Program.constant (.decimal (.finite true c (-places)))).render =
      .ok (Program.constant (.decimal d)) := by
  have read := Parser.negative?_fraction some_place range negated
  have reads := constant_reads (legible_fraction c some_place)
    (show Terminal.decimal ∈ Place.sign.accepts by decide) (fun p => (read p).1)
    fun p => (read p).2
  have words : (Literal.decimal (.finite true c (-places))).words =
      [mark .minus, fraction c places] := by
    have exponent : (-(-places : Int)).toNat = places := by omega
    rw [Literal.words, exponent]
    rfl
  rw [← words] at reads
  exact reads

end PlcLang
