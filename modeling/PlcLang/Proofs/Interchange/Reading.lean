import PlcLang.Interchange.Decoding
import PlcLang.Proofs.Except
import PlcLang.Proofs.Tree.Parts

/-! What can be said of a tree that was read, whatever it was read from. -/

namespace PlcLang

namespace Decimal

theorem kept_eq_ok {d d' : Decimal} (h : d.kept = .ok d') : d' = d ∧ d.inRange = true := by
  rw [kept] at h
  split at h
  · rename_i range
    cases h
    exact ⟨rfl, range⟩
  · cases h

theorem inRange_of_kept {d d' : Decimal} (h : d.kept = .ok d') : d'.inRange = true := by
  obtain ⟨rfl, range⟩ := kept_eq_ok h
  exact range

theorem inRange_ofText {text : String} {d : Decimal} (h : ofText text = .ok d) :
    d.inRange = true := by
  rw [ofText] at h
  simp only at h
  split at h
  · exact inRange_of_kept h
  · cases h

end Decimal

/-- A decimal is one that some text denotes. -/
def Literal.InRange : Literal → Prop
  | .decimal d => d.inRange = true
  | _ => True

theorem inRange_toDecimal {j : Json} {d : Decimal} (h : j.toDecimal = .ok d) :
    d.inRange = true := by
  cases j with
  | null | object _ => cases h
  | integer _ | real _ => exact Decimal.inRange_of_kept (Except.mapError_eq_ok.1 h)
  | string _ => exact Decimal.inRange_ofText (Except.mapError_eq_ok.1 h)
  | bool b =>
    cases h
    cases b <;> decide
  | array parts =>
    simp only [Json.toDecimal] at h
    split at h
    · exact Decimal.inRange_ofText (Except.mapError_eq_ok.1 h)
    · cases h

theorem inRange_ofString (j : Json) : (Literal.ofString j).InRange := by
  cases j <;> exact trivial

theorem inRange_decode {j : Json} {l : Literal} (h : Literal.decode j = .ok l) : l.InRange := by
  cases j with
  | object members =>
    simp only [Literal.decode] at h
    obtain ⟨kind, -, h⟩ := Except.bind_eq_ok.1 h
    split at h
    case h_4 =>
      obtain ⟨value, -, h⟩ := Except.bind_eq_ok.1 h
      obtain ⟨d, read, h⟩ := Except.bind_eq_ok.1 h
      cases h
      exact inRange_toDecimal read
    case h_6 =>
      obtain ⟨value, -, h⟩ := Except.bind_eq_ok.1 h
      cases h
      exact inRange_ofString value
    case h_1 => cases h; exact trivial
    case h_2 =>
      obtain ⟨value, -, h⟩ := Except.bind_eq_ok.1 h
      cases h
      exact trivial
    case h_3 =>
      obtain ⟨value, -, h⟩ := Except.bind_eq_ok.1 h
      obtain ⟨n, -, h⟩ := Except.bind_eq_ok.1 h
      cases h
      exact trivial
    case h_5 =>
      obtain ⟨value, -, h⟩ := Except.bind_eq_ok.1 h
      cases h
      exact trivial
    case h_7 => cases h
  | _ => cases h

namespace Node

/-- What a node has in common with all nodes read: a decimal is one that some text denotes, a known
operator is never taken for an unknown one, and the second branch of a condition is there. -/
def Settled : Node Unit → Prop
  | literal _ value => value.InRange
  | binary _ op _ _ => Operator.ofJson op.toJson = op
  | conditional _ _ elseStatements => elseStatements.isAbsent = false
  | _ => True

theorem lookup_decodeMembers (key : String) (members : List (String × Json)) :
    (decodeMembers members).lookup key = (members.lookup key).map decode := by
  induction members with
  | nil => rfl
  | cons member members ih =>
    obtain ⟨k, j⟩ := member
    rw [decodeMembers, List.lookup_cons, List.lookup_cons, ih]
    cases key == k <;> rfl

/-- A node that is put together is there. -/
theorem isAbsent_assemble {j : Json} {children : List (String × Except DecodeError (Node Unit))}
    {n : Node Unit} (h : assemble j children = .ok n) : n.isAbsent = false := by
  simp only [assemble] at h
  split at h
  case h_8 =>
    obtain ⟨_, -, h⟩ := Except.bind_eq_ok.1 h
    obtain ⟨_, -, h⟩ := Except.bind_eq_ok.1 h
    split at h
    all_goals
      obtain ⟨_, -, h⟩ := Except.bind_eq_ok.1 h
      cases h
      rfl
  all_goals
    repeat obtain ⟨_, -, h⟩ := Except.bind_eq_ok.1 h
    cases h
  all_goals rfl

theorem isAbsent_decode {j : Json} {n : Node Unit} (given : j.truthy = true)
    (h : decode j = .ok n) : n.isAbsent = false := by
  cases j with
  | null => cases given
  | bool _ | integer _ | real _ | string _ => cases h
  | array items =>
    rw [decode] at h
    obtain ⟨ns, -, h⟩ := Except.bind_eq_ok.1 h
    cases h
    rfl
  | object members =>
    rw [decode] at h
    exact isAbsent_assemble h

/-- A node put together from settled nodes is settled. -/
theorem settled_assemble {j : Json} {children : List (String × Except DecodeError (Node Unit))}
    (settled : ∀ key n, children.lookup key = some (.ok n) → n.Every Settled)
    (second : ∀ n, ((j.member? "else_statements").getD .null).truthy = true →
      children.lookup "else_statements" = some (.ok n) → n.isAbsent = false)
    {n : Node Unit} (h : assemble j children = .ok n) : n.Every Settled := by
  have there : ∀ {key n}, (children.lookup key).getD (.error (.missing key)) = .ok n →
      children.lookup key = some (.ok n) := by
    intro key n h
    cases found : children.lookup key with
    | none =>
      rw [found] at h
      cases h
    | some r =>
      rw [found] at h
      rw [← h]
      rfl
  have child : ∀ {key n}, (children.lookup key).getD (.error (.missing key)) = .ok n →
      n.Every Settled := fun h => settled _ _ (there h)
  have optionalChild : ∀ {key n}, (children.lookup key).getD (.ok .absent) = .ok n →
      n.Every Settled := by
    intro key n h
    cases found : children.lookup key with
    | none =>
      rw [found] at h
      cases h
      exact trivial
    | some r =>
      rw [found] at h
      exact settled key n (by rw [found, ← h]; rfl)
  simp only [assemble] at h
  split at h
  case h_1 =>
    obtain ⟨globals, hg, h⟩ := Except.bind_eq_ok.1 h
    obtain ⟨functions, hf, h⟩ := Except.bind_eq_ok.1 h
    cases h
    exact ⟨trivial, child hg, child hf⟩
  case h_2 =>
    obtain ⟨name, -, h⟩ := Except.bind_eq_ok.1 h
    obtain ⟨isMutable, -, h⟩ := Except.bind_eq_ok.1 h
    obtain ⟨value, hv, h⟩ := Except.bind_eq_ok.1 h
    cases h
    exact ⟨trivial, optionalChild hv⟩
  case h_3 =>
    obtain ⟨name, -, h⟩ := Except.bind_eq_ok.1 h
    obtain ⟨typeName, -, h⟩ := Except.bind_eq_ok.1 h
    cases h
    exact trivial
  case h_4 =>
    obtain ⟨name, -, h⟩ := Except.bind_eq_ok.1 h
    obtain ⟨parameters, hp, h⟩ := Except.bind_eq_ok.1 h
    obtain ⟨statements, hs, h⟩ := Except.bind_eq_ok.1 h
    cases h
    exact ⟨trivial, child hp, child hs⟩
  case h_6 =>
    obtain ⟨name, -, h⟩ := Except.bind_eq_ok.1 h
    obtain ⟨value, hv, h⟩ := Except.bind_eq_ok.1 h
    cases h
    exact ⟨trivial, optionalChild hv⟩
  case h_8 =>
    obtain ⟨condition, hc, h⟩ := Except.bind_eq_ok.1 h
    obtain ⟨thenStatements, ht, h⟩ := Except.bind_eq_ok.1 h
    -- An empty second branch is read as an empty list.
    split at h
    · rename_i given
      obtain ⟨elseStatements, he, h⟩ := Except.bind_eq_ok.1 h
      cases h
      exact ⟨second _ given (there he), child hc, child ht, child he⟩
    · cases h
      exact ⟨rfl, child hc, child ht, trivial, trivial⟩
  case h_9 =>
    obtain ⟨value, hv, h⟩ := Except.bind_eq_ok.1 h
    obtain ⟨statements, hs, h⟩ := Except.bind_eq_ok.1 h
    cases h
    exact ⟨trivial, optionalChild hv, child hs⟩
  case h_7 | h_10 | h_11 =>
    obtain ⟨first, hf, h⟩ := Except.bind_eq_ok.1 h
    obtain ⟨second, hs, h⟩ := Except.bind_eq_ok.1 h
    cases h
    exact ⟨trivial, child hf, child hs⟩
  case h_13 =>
    obtain ⟨given, -, h⟩ := Except.bind_eq_ok.1 h
    obtain ⟨value, hv, h⟩ := Except.bind_eq_ok.1 h
    cases h
    exact inRange_decode hv
  case h_15 =>
    obtain ⟨operator, -, h⟩ := Except.bind_eq_ok.1 h
    obtain ⟨left, hl, h⟩ := Except.bind_eq_ok.1 h
    obtain ⟨right, hr, h⟩ := Except.bind_eq_ok.1 h
    cases h
    exact ⟨congrArg Operator.ofJson (Operator.toJson_ofJson operator), child hl, child hr⟩
  case h_16 =>
    obtain ⟨name, -, h⟩ := Except.bind_eq_ok.1 h
    obtain ⟨offset, ho, h⟩ := Except.bind_eq_ok.1 h
    cases h
    exact ⟨trivial, optionalChild ho⟩
  case h_17 =>
    obtain ⟨name, -, h⟩ := Except.bind_eq_ok.1 h
    obtain ⟨arguments, ha, h⟩ := Except.bind_eq_ok.1 h
    cases h
    exact ⟨trivial, child ha⟩
  case h_5 | h_12 | h_14 | h_18 =>
    obtain ⟨only, ho, h⟩ := Except.bind_eq_ok.1 h
    cases h
    exact ⟨trivial, child ho⟩
  case h_19 => cases h

mutual
/-- Every tree that is read is settled. -/
theorem settled_decode : (j : Json) → ∀ {n : Node Unit}, decode j = .ok n → n.Every Settled
  | .null, n, h => by
    cases h
    exact trivial
  | .bool _, n, h => by cases h
  | .integer _, n, h => by cases h
  | .real _, n, h => by cases h
  | .string _, n, h => by cases h
  | .array items, n, h => by
    rw [decode] at h
    obtain ⟨ns, read, h⟩ := Except.bind_eq_ok.1 h
    cases h
    exact ⟨trivial, settled_decodeAll items read⟩
  | .object members, n, h => by
    rw [decode] at h
    refine settled_assemble (settled_decodeMembers members) (fun n given read => ?_) h
    rw [lookup_decodeMembers] at read
    obtain ⟨j, found, read⟩ := Option.map_eq_some_iff.1 read
    rw [Json.member?, found] at given
    exact isAbsent_decode given read

theorem settled_decodeAll : (items : List Json) → ∀ {ns : List (Node Unit)},
    decodeAll items = .ok ns → EveryOne Settled ns
  | [], ns, h => by
    cases h
    exact trivial
  | j :: rest, ns, h => by
    rw [decodeAll] at h
    obtain ⟨n, first, h⟩ := Except.bind_eq_ok.1 h
    obtain ⟨more, others, h⟩ := Except.bind_eq_ok.1 h
    cases h
    exact ⟨settled_decode j first, settled_decodeAll rest others⟩

theorem settled_decodeMembers : (members : List (String × Json)) → ∀ key n,
    (decodeMembers members).lookup key = some (.ok n) → n.Every Settled
  | [], key, n, h => by cases h
  | (k, j) :: rest, key, n, h => by
    rw [decodeMembers, List.lookup_cons] at h
    split at h
    · exact settled_decode j (Option.some.inj h)
    · exact settled_decodeMembers rest key n h
end

end Node

end PlcLang
