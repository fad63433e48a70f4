import PlcLang.Proofs.Parsing.Reading
import PlcLang.Proofs.Parsing.Rendering
import PlcLang.Proofs.Values.Range

/-! Where operands begin and end, and the words of literals. -/

namespace PlcLang

open Word

namespace Parser

/-- A configuration in which an operand may begin. -/
structure Ready (c : Configuration) (place : Place) (goal : Goal) (nests : List Nest)
    (pending : Operands) : Prop where
  wanted : ∀ t ∈ Place.operandStart, t ∈ place.accepts
  shift : ∀ t : Token, t.kind ∈ Place.operandStart →
    c.shift t = c.startOperand goal nests pending t

/-- A configuration in which an expression is read, which has joined its operands as far as its
level requires. -/
structure Done (c : Configuration) (place : Place) (goal : Goal) (nests : List Nest)
    (pending : Operands) (e : Expr) : Prop where
  wanted : ∀ t ∈ Place.operators ++ Place.expressionEnd, t ∈ place.accepts
  shift : ∃ waiting x, (∀ level ≤ e.level, settle level waiting x = settle level pending e) ∧
    ∀ t : Token, t.kind ∈ Place.operators ++ Place.expressionEnd →
      c.shift t = c.afterOperand goal nests waiting x t.kind

variable {c : Configuration} {place : Place} {goal : Goal} {nests : List Nest} {pending : Operands}

theorem ready_wanted (c : Configuration) (goal : Goal) (nests : List Nest) (pending : Operands) :
    Ready { c with spot := .expression goal nests pending .wanted } .operandWanted goal nests
      pending :=
  ⟨fun _ h => h, fun _ _ => rfl⟩

/-- Where a closing bracket may stand instead. -/
theorem ready_wantedOrClosing (c : Configuration) (goal : Goal) (nests : List Nest)
    (pending : Operands) (h : ∀ t ∈ Place.operandStart, t ∈ place.accepts) :
    Ready { c with spot := .expression goal nests pending .wantedOrClosing } place goal nests
      pending := by
  refine ⟨h, fun t start => ?_⟩
  have none : ∀ c : Configuration, c.closeEmpty goal nests t.kind = none := by
    intro c
    unfold Configuration.closeEmpty
    split
    all_goals first
      | rfl
      | (rename_i kind
         rw [kind] at start
         exact absurd start (by decide))
  show Configuration.shiftExpression _ goal nests pending .wantedOrClosing t = _
  rw [Configuration.shiftExpression, none]

theorem ready_statement (c : Configuration) (h : ∀ t ∈ Place.operandStart, t ∈ place.accepts) :
    Ready { c with spot := .statement } place .statement [] [] := by
  refine ⟨h, fun t start => ?_⟩
  show Configuration.shiftStatement _ t = _
  unfold Configuration.shiftStatement
  split
  all_goals first
    | rfl
    | (rename_i kind
       rw [kind] at start
       exact absurd start (by decide))

theorem done_complete (c : Configuration) (goal : Goal) (nests : List Nest) (pending : Operands)
    (e : Expr) :
    Done { c with spot := .expression goal nests pending (.complete e) } .operand goal nests pending
      e :=
  ⟨fun _ h => h, pending, e, fun _ _ => rfl, fun _ _ => rfl⟩

theorem done_name (c : Configuration) (goal : Goal) (nests : List Nest) (pending : Operands)
    (name : String) :
    Done { c with spot := .expression goal nests pending (.name name) } .name goal nests pending
      (.access name none) := by
  refine ⟨fun t h => List.mem_append_left _ h, pending, _, fun _ _ => rfl, fun t follows => ?_⟩
  show Configuration.shiftExpression _ goal nests pending (.name name) t = _
  simp only [Configuration.shiftExpression]
  split
  all_goals first
    | rfl
    | (rename_i kind
       rw [kind] at follows
       exact absurd follows (by decide))

/-- What ends an expression joins all of it. -/
theorem afterOperand_eq {waiting : Operands} {x e : Expr} (same : whole waiting x = e) {t : Terminal}
    (ends : t ∈ Place.expressionEnd) :
    c.afterOperand goal nests waiting x t = c.afterOperand goal nests [] e t := by
  have again : whole [] e = e := rfl
  unfold Configuration.afterOperand
  split
  · rename_i s
    have none : s.operator? = none := by
      revert ends
      cases s <;> decide
    simp only [none, same, again]
  · simp only [same, again]

/-- The token behind an expression finds all operands joined. -/
theorem Done.ends_whole {e : Expr} (done : Done c place goal nests pending e) {t : Token}
    (ends : t.kind ∈ Place.expressionEnd) :
    c.shift t = c.afterOperand goal nests [] (whole pending e) t.kind := by
  obtain ⟨waiting, x, same, shift⟩ := done.shift
  have joined : whole waiting x = whole pending e := by
    rw [whole, same 0 (Nat.zero_le _)]
    rfl
  rw [shift t (List.mem_append_right _ ends), afterOperand_eq joined ends]

/-- An operator no tighter than the expression takes it for its left operand. -/
theorem Done.operator {e : Expr} (done : Done c place goal nests pending e) {op : Operator}
    {s : Symbol} (mark : s.operator? = some op) (ordered : op.level ≤ e.level)
    (below : ∀ p ∈ pending.head?, p.2.level < op.level) (p : Position) :
    c.shift ((Word.mark s).token p) =
      some ({ c with spot := .expression goal nests ((e, op) :: pending) .wanted },
        .operandWanted) := by
  obtain ⟨waiting, x, same, shift⟩ := done.shift
  have stays : settle op.level pending e = (pending, e) := by
    cases pending with
    | nil => rfl
    | cons p rest =>
      obtain ⟨left, outer⟩ := p
      rw [settle, if_neg (Nat.not_le.2 (below (left, outer) rfl))]
  have known : (Word.mark s).kind ∈ Place.operators ++ Place.expressionEnd := by
    revert mark
    cases s <;> simp [Symbol.operator?, Word.mark, Place.operators, Place.symbols]
  rw [shift _ known]
  show c.afterOperand goal nests waiting x (.symbol s) = _
  simp only [Configuration.afterOperand, mark, same op.level ordered, stays]
  rfl

/-! ### Literals -/

/-- A token that stands for a literal is the whole operand. -/
theorem Ready.shift_literal (ready : Ready c place goal nests pending) {t : Token} {value : Literal}
    (start : t.kind ∈ Place.operandStart) (known : t.literal? = some value) :
    c.shift t =
      some ({ c with spot := .expression goal nests pending (.complete (.literal value)) },
        .operand) := by
  rw [ready.shift _ start, Configuration.startOperand]
  split
  all_goals first
    | (rename_i kind
       simp only [Token.literal?, kind] at known
       cases known)
    | (rw [known]
       rfl)

/-- An operand may begin with a minus sign. -/
theorem Ready.shift_minus (ready : Ready c place goal nests pending) {t : Token}
    (minus : t.kind = .symbol .minus) :
    c.shift t = some ({ c with spot := .expression goal nests pending .sign }, .sign) := by
  rw [ready.shift _ (minus ▸ by decide), Configuration.startOperand, minus]
  rfl

/-- Behind a minus sign the number is the whole operand. -/
theorem shift_negative (c : Configuration) (goal : Goal) (nests : List Nest) (pending : Operands)
    {t : Token} {value : Literal} (known : t.negative? = some value) :
    ({ c with spot := .expression goal nests pending .sign } : Configuration).shift t =
      some ({ c with spot := .expression goal nests pending (.complete (.literal value)) },
        .operand) := by
  show Configuration.shiftExpression _ goal nests pending .sign t = _
  rw [Configuration.shiftExpression, known]
  rfl

/-- No operand begins where the number behind a minus sign is read. -/
theorem Ready.unsigned (ready : Ready c place goal nests pending) : place ≠ .sign := by
  rintro rfl
  have wanted := ready.wanted .ident (by decide)
  exact absurd wanted (by decide)

/-- A single token that stands for a literal. -/
theorem Ready.literal (ready : Ready c place goal nests pending) {w : Word} {value : Literal}
    (legible : w.Legible) (start : w.kind ∈ Place.operandStart)
    (sound : place ≠ .sign → ∀ p, (w.token p).fault? place = none)
    (known : ∀ p, (w.token p).literal? = some value) :
    Reads (c, place) [w]
      ({ c with spot := .expression goal nests pending (.complete (.literal value)) },
        .operand) := by
  refine .cons legible (ready.wanted _ start) ?_ (sound ready.unsigned) (fun p => ?_) .nil
  · intro ends
    rw [ends] at start
    exact absurd start (by decide)
  · exact ready.shift_literal start (known p)

/-- A minus sign and the number behind it. -/
theorem Ready.negative (ready : Ready c place goal nests pending) {w : Word} {value : Literal}
    (legible : w.Legible) (wanted : w.kind ∈ Place.sign.accepts)
    (sound : ∀ p, (w.token p).fault? .sign = none)
    (known : ∀ p, (w.token p).negative? = some value) :
    Reads (c, place) [Word.mark .minus, w]
      ({ c with spot := .expression goal nests pending (.complete (.literal value)) },
        .operand) := by
  have minus : (Word.mark .minus).kind ∈ Place.operandStart := by decide
  have sign : Reads (c, place) [Word.mark .minus]
      ({ c with spot := .expression goal nests pending .sign }, .sign) :=
    Reads.mark .minus (ready.wanted _ minus) fun _ => ready.shift_minus rfl
  refine sign.append (.cons legible wanted ?_ sound (fun p => ?_) .nil)
  · intro ends
    rw [ends] at wanted
    exact absurd wanted (by decide)
  · exact shift_negative c goal nests pending (known p)

theorem fault?_number {n : Nat} (short : digitCount n ≤ Integer.digitLimit) (place : Place)
    (p : Position) : ((number n).token p).fault? place = none := by
  have length : ((number n).token p).text.length = digitCount n := by
    rw [← length_digits n]
    exact List.length_map _
  have fits : ¬ Integer.digitLimit < ((number n).token p).text.length := by
    rw [length]
    omega
  exact if_neg fits

theorem literal?_number (n : Nat) (p : Position) :
    ((number n).token p).literal? = some (.integer n) := by
  have value := digitsNumber_digitChars fun d hd => lt_ten_of_mem_digits (n := n) hd
  rw [digitsValue_digits] at value
  show some (Literal.integer (digitsNumber (digitChars n))) = _
  rw [digitChars, value]

theorem literal?_fraction (c : Nat) {places : Nat} (some_place : places ≠ 0) (p : Position) :
    ((fraction c places).token p).literal? = some (.decimal (.finite false c (-places))) := by
  rw [← decimalNumber_fraction c some_place]
  rfl

theorem fault?_fraction {c places : Nat} (some_place : places ≠ 0)
    (range : (Decimal.finite false c (-places)).inRange = true) {place : Place}
    (unsigned : place ≠ .sign) (p : Position) :
    ((fraction c places).token p).fault? place = none := by
  have kept : (decimalNumber (fraction c places).text).kept = .ok (.finite false c (-places)) := by
    rw [decimalNumber_fraction c some_place]
    exact if_pos range
  have kind : ((fraction c places).token p).kind = .decimal := rfl
  have text : ((fraction c places).token p).text = (fraction c places).text := rfl
  simp only [Token.fault?, kind, text, if_neg unsigned, kept]

/-- Behind a sign a number with a point stands for what the sign makes of it. -/
theorem negative?_fraction {c places : Nat} (some_place : places ≠ 0)
    (range : (Decimal.finite false c (-places)).inRange = true) {d : Decimal}
    (value : (Decimal.finite false c (-places)).neg .sign = .ok d) (p : Position) :
    ((fraction c places).token p).fault? .sign = none ∧
      ((fraction c places).token p).negative? = some (.decimal d) := by
  have kept : (Decimal.finite false c (-places)).kept = .ok (.finite false c (-places)) :=
    if_pos range
  constructor
  · have kind : ((fraction c places).token p).kind = .decimal := rfl
    have text : ((fraction c places).token p).text = (fraction c places).text := rfl
    simp only [Token.fault?, kind, text, decimalNumber_fraction c some_place, kept, ↓reduceIte,
      Except.bind, value]
  · rw [Token.negative?, literal?_fraction c some_place]
    simp only [value]
    rfl

/-- The range does not tell a number from its negative. -/
theorem inRange_sign (negative other : Bool) (c : Nat) (e : Int) :
    (Decimal.finite negative c e).inRange = (Decimal.finite other c e).inRange := by
  rw [Bool.eq_iff_iff, Decimal.inRange_finite, Decimal.inRange_finite]

/-- A sign leaves a number alone that has no more digits than it keeps and no lower exponent. -/
theorem neg_sign {c : Nat} {e : Int} (places : e < 0) (nonzero : c ≠ 0)
    (short : digitCount c ≤ Decimal.Context.sign.precision)
    (low : Decimal.Context.sign.tiny ≤ e) :
    (Decimal.finite false c e).neg .sign = .ok (.finite true c e) := by
  have precise : Decimal.Context.sign.precision = 28 := rfl
  have most : Decimal.Context.sign.maxExponent = 999999 := rfl
  have sign : (!false && c != 0) = true := by simpa using nonzero
  have whole : ¬ e < max Decimal.Context.sign.tiny
      (Decimal.leading c e - Decimal.Context.sign.precision + 1) := by
    rw [Decimal.leading, precise]
    omega
  rw [Decimal.neg, sign, Decimal.round, if_neg nonzero]
  simp only [if_neg whole]
  apply Decimal.settle_ok short
  rw [Decimal.top, if_neg nonzero, Decimal.leading, most]
  omega

/-- The words of a literal that can be written are read as the literal. -/
theorem Ready.spelled (ready : Ready c place goal nests pending) {l : Literal}
    (spelled : l.Spelled) (signable : l.Signable) :
    Reads (c, place) l.words
      ({ c with spot := .expression goal nests pending (.complete (.literal l)) }, .operand) := by
  cases l with
  | nil => exact ready.literal (legible_key .NIL) (by decide) (fun _ _ => rfl) fun _ => rfl
  | boolean b =>
    cases b with
    | true => exact ready.literal (legible_key .TRUE) (by decide) (fun _ _ => rfl) fun _ => rfl
    | false => exact ready.literal (legible_key .FALSE) (by decide) (fun _ _ => rfl) fun _ => rfl
  | integer n =>
    by_cases negative : n < 0
    · have words : (Literal.integer n).words = [Word.mark .minus, number n.natAbs] := by
        rw [Literal.words, decide_eq_true negative]
        rfl
      have value : ∀ p, ((number n.natAbs).token p).negative? = some (.integer n) := by
        intro p
        have minus : -(n.natAbs : Int) = n := by omega
        rw [Token.negative?, literal?_number]
        show some (Literal.integer (-(n.natAbs : Int))) = _
        rw [minus]
      rw [words]
      exact ready.negative (legible_number _) (show Terminal.integer ∈ Place.sign.accepts by decide)
        (fault?_number spelled .sign) value
    · have words : (Literal.integer n).words = [number n.natAbs] := by
        rw [Literal.words, decide_eq_false negative]
        rfl
      have value : ∀ p, ((number n.natAbs).token p).literal? = some (.integer n) := by
        intro p
        rw [literal?_number, Int.natAbs_of_nonneg (by omega)]
      rw [words]
      exact ready.literal (legible_number _) (show Terminal.integer ∈ Place.operandStart by decide)
        (fun _ => fault?_number spelled place) value
  | decimal d =>
    cases d with
    | finite negative c e =>
      obtain ⟨below, range, digits⟩ := spelled
      have some_place : (-e).toNat ≠ 0 := by omega
      have exponent : -((-e).toNat : Int) = e := by omega
      cases negative with
      | true =>
        obtain ⟨nonzero, short⟩ := digits rfl
        have value := neg_sign below nonzero short signable
        have positive := inRange_sign true false c e ▸ range
        have read := negative?_fraction some_place (by rw [exponent]; exact positive)
          (by rw [exponent]; exact value)
        exact ready.negative (legible_fraction c some_place)
          (show Terminal.decimal ∈ Place.sign.accepts by decide) (fun p => (read p).1)
          fun p => (read p).2
      | false =>
        have value := literal?_fraction c some_place
        rw [exponent] at value
        exact ready.literal (legible_fraction c some_place)
          (show Terminal.decimal ∈ Place.operandStart by decide)
          (fun unsigned => fault?_fraction some_place (by rw [exponent]; exact range) unsigned) value
    | infinite _ => exact spelled.elim
    | nan _ _ _ => exact spelled.elim
  | character content =>
    cases content with
    | string s =>
      obtain ⟨ch, single⟩ := List.length_eq_one_iff.1 spelled
      have words : (Literal.character (.string s)).words = [Word.character ch] := by
        rw [Literal.words, single]
        rfl
      have text := quotedText_escape '\'' [ch]
      rw [← single, String.ofList_toList, single] at text
      have value : ∀ p, ((Word.character ch).token p).literal? =
          some (.character (.string s)) := by
        intro p
        rw [← text, Text.escape, List.flatMap_singleton]
        rfl
      rw [words]
      exact ready.literal (legible_character ch)
        (show Terminal.character ∈ Place.operandStart by decide) (fun _ _ => rfl) value
    | _ => exact spelled.elim
  | string s =>
    refine ready.literal (legible_string s) (show Terminal.string ∈ Place.operandStart by decide)
      (fun _ _ => rfl) fun p => ?_
    have text := quotedText_escape '"' s.toList
    rw [String.ofList_toList] at text
    show some (Literal.string (quotedText ('"' :: Text.escape s.toList ++ ['"']))) = _
    rw [text]
  | foreign _ => exact spelled.elim

end Parser

end PlcLang
