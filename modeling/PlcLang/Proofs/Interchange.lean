import PlcLang.Proofs.Interchange.Writing
import PlcLang.Proofs.Parsing.Lexical
import PlcLang.Proofs.Parsing.Node

namespace PlcLang

/-- A literal has a JSON form that stands for it. -/
def Literal.Portable (l : Literal) : Prop :=
  l.InRange ∧ ∃ j, l.encode = .ok j

/-- Any names, and literals with JSON forms. -/
def Wording.portable : Wording :=
  ⟨fun _ => True, Literal.Portable⟩

theorem portable_integer {n : Int} (short : digitCount n.natAbs ≤ Integer.digitLimit) :
    (Literal.integer n).Portable := by
  refine ⟨trivial, ?_⟩
  rw [Literal.encode, Integer.text?, if_pos short]
  exact ⟨_, rfl⟩

theorem portable_decimal {d : Decimal} (range : d.inRange = true) : (Literal.decimal d).Portable :=
  ⟨range, _, rfl⟩

/-- A decimal token without a fault is in range, also behind a sign. -/
theorem inRange_decimalNumber {place : Place} {t : Token} (decimal : t.kind = .decimal)
    (sound : t.fault? place = none) :
    (decimalNumber t.text).inRange = true ∧
      (place = .sign → ∃ d, (decimalNumber t.text).neg .sign = .ok d ∧ d.inRange = true) := by
  rw [Token.fault?, decimal] at sound
  simp only at sound
  split at sound
  · rename_i d value
    by_cases sign : place = .sign
    · rw [if_pos sign] at value
      obtain ⟨k, kept, value⟩ := Except.bind_eq_ok.1 value
      obtain ⟨rfl, range⟩ := Decimal.kept_eq_ok kept
      exact ⟨range, fun _ => ⟨d, value, Decimal.inRange_neg range value⟩⟩
    · rw [if_neg sign] at value
      exact ⟨(Decimal.kept_eq_ok value).2, fun h => absurd h sign⟩
  · cases sound

/-- The literal of a token without a fault has a JSON form. -/
theorem portable_of_found {place : Place} {t : Token} (found : t.Found place)
    (sound : t.fault? place = none) : t.Fits .portable place := by
  refine ⟨fun _ => trivial, fun value known => ?_, fun sign value known => ?_⟩
  · rw [Token.literal?] at known
    split at known
    case h_4 integer =>
      cases known
      exact portable_integer (digitCount_digitsNumber found integer sound)
    case h_5 decimal =>
      cases known
      exact portable_decimal (inRange_decimalNumber decimal sound).1
    case h_8 => cases known
    all_goals
      cases known
      exact ⟨trivial, _, rfl⟩
  · rw [Token.negative?] at known
    split at known
    · rename_i n literal
      cases known
      rw [Token.literal?] at literal
      split at literal
      case h_4 integer =>
        cases literal
        apply portable_integer
        rw [Int.natAbs_neg]
        exact digitCount_digitsNumber found integer sound
      all_goals cases literal
    · rename_i d literal
      cases known
      rw [Token.literal?] at literal
      split at literal
      case h_5 decimal =>
        cases literal
        obtain ⟨d', value, range⟩ := (inRange_decimalNumber decimal sound).2 sign
        rw [value]
        exact portable_decimal range
      all_goals cases literal
    · cases known

/-- The literals of a program that is parsed have JSON forms. -/
theorem portable_parse {text : String} {p : Program} (h : Program.parse text = .ok p) :
    p.Shaped .portable :=
  Program.shaped_of_parse h fun _ _ found sound => portable_of_found found sound

namespace Node

variable {W : Wording}

theorem settled_of_worded (range : ∀ l, W.literal l → l.InRange) (n : Node Unit)
    (worded : n.Worded W) : n.Settled := by
  cases n with
  | literal _ value => exact range value worded
  | binary _ op _ _ => exact Operator.ofJson_toJson worded
  | conditional _ _ _ => exact worded
  | _ => exact trivial

theorem writable_of_worded (written : ∀ l, W.literal l → ∃ j, l.encode = .ok j) (n : Node Unit)
    (worded : n.Worded W) : n.Writable := by
  cases n with
  | literal _ value => exact written value worded
  | _ => exact trivial

end Node

/-- Trees survive the exchange as JSON. The tree of a program that is parsed has a JSON form, and
that stands for the tree. Whatever JSON value a tree is read from, its JSON form stands for the same
tree, so that reading and writing it again changes nothing. -/
theorem interchange_lossless :
    (∀ (text : String) (p : Program), Program.parse text = .ok p →
      ∃ j, p.toNode.encode = .ok j ∧ Node.decode j = .ok p.toNode) ∧
    ∀ (o : Json) (a : Node Unit) (o' : Json), Node.decode o = .ok a → a.encode = .ok o' →
      Node.decode o' = .ok a ∧
        ∀ b, Node.decode o' = .ok b → b.encode = .ok o' := by
  constructor
  · intro text p parsed
    have worded := (portable_parse parsed).worded
    have settled : p.toNode.Every Node.Settled :=
      Node.Every.imp (Node.settled_of_worded fun _ (portable : Literal.Portable _) => portable.1) _ worded
    have writable : p.toNode.Every Node.Writable :=
      Node.Every.imp (Node.writable_of_worded fun _ (portable : Literal.Portable _) => portable.2) _ worded
    obtain ⟨j, written⟩ := Node.encode_of_writable _ writable
    exact ⟨j, written, Node.decode_encode _ settled written⟩
  · intro o a o' read written
    have again := Node.decode_encode a (Node.settled_decode o read) written
    refine ⟨again, fun b readAgain => ?_⟩
    rw [again] at readAgain
    cases readAgain
    exact written

/-- A text with a decimal, and a literal that is called a string and holds a number. -/
theorem interchange_lossless_decimal :
    (∃ j, (Program.mk [⟨"x", false, "Decimal", some (.literal (.decimal (.finite true 150 (-2))))⟩]
        []).toNode.encode = .ok j ∧
      Node.decode j = .ok (Program.mk
        [⟨"x", false, "Decimal", some (.literal (.decimal (.finite true 150 (-2))))⟩] []).toNode) ∧
    Node.decode (Node.tagged "Literal"
        [("value", .object [("kind", .string "Integer"), ("value", .string "5")])]) =
      .ok (.literal () (.integer 5)) :=
  ⟨interchange_lossless.1 "VAL x: Decimal = -1.50;" _ (by rfl),
    (interchange_lossless.2
      (Node.tagged "Literal" [("value", .object [("kind", .string "String"), ("value", .integer 5)])])
      _ _ rfl rfl).1⟩

end PlcLang
