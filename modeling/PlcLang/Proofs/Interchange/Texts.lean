import PlcLang.Interchange.Encoding
import PlcLang.Proofs.Except
import PlcLang.Proofs.Json.Values
import PlcLang.Proofs.Tree.Parts

/-! The JSON form of a tree is made of texts if the tree is. -/

namespace PlcLang.Node

variable {α : Type}

/-- What a node holds besides other nodes has a JSON form made of texts. -/
def Spelled : Node α → Prop
  | .global _ name _ typeName _ | .parameter _ name typeName | .function _ name _ typeName _
  | .declaration _ name typeName _ => name.Textual ∧ typeName.Textual
  | .binary _ op _ _ => op.toJson.Textual
  | .access _ name _ | .call _ name _ => name.Textual
  | .literal _ value => ∀ j, value.encode = .ok j → j.Textual
  | _ => True

/-- A node is tagged with its type, for which its members have another key. -/
theorem textual_tagged {type : String} {members : List (String × Json)}
    (keys : (("type" :: members.map (·.1))).Nodup) (each : Json.MembersTextual members) :
    (tagged type members).Textual :=
  ⟨keys, trivial, each⟩

mutual
theorem textual_encode : (n : Node α) → n.Every Spelled → ∀ {j : Json}, n.encode = .ok j → j.Textual
  | .absent, _, _, h => by
    cases h
    trivial
  | .list items, ⟨_, below⟩, _, h => by
    rw [encode] at h
    obtain ⟨js, written, h⟩ := Except.bind_eq_ok.1 h
    cases h
    exact textual_encodeAll items below written
  | .source globals functions, ⟨_, first, second⟩, _, h => by
    rw [encode] at h
    obtain ⟨g, writtenFirst, h⟩ := Except.bind_eq_ok.1 h
    obtain ⟨f, writtenSecond, h⟩ := Except.bind_eq_ok.1 h
    cases h
    exact textual_tagged (by simp) ⟨textual_encode globals first writtenFirst,
      textual_encode functions second writtenSecond, trivial⟩
  | .global _ name _ typeName value, ⟨here, below⟩, _, h => by
    rw [encode] at h
    obtain ⟨v, written, h⟩ := Except.bind_eq_ok.1 h
    cases h
    exact textual_tagged (by simp)
      ⟨here.1, trivial, here.2, textual_encode value below written, trivial⟩
  | .parameter _ name typeName, here, _, h => by
    rw [encode] at h
    cases h
    exact textual_tagged (by simp) ⟨here.1, here.2, trivial⟩
  | .function _ name parameters _ statements, ⟨here, first, second⟩, _, h => by
    rw [encode] at h
    obtain ⟨p, writtenFirst, h⟩ := Except.bind_eq_ok.1 h
    obtain ⟨s, writtenSecond, h⟩ := Except.bind_eq_ok.1 h
    cases h
    exact textual_tagged (by simp) ⟨here.1, textual_encode parameters first writtenFirst, here.2,
      textual_encode statements second writtenSecond, trivial⟩
  | .expressionStmt expression, ⟨_, below⟩, _, h => by
    rw [encode] at h
    obtain ⟨e, written, h⟩ := Except.bind_eq_ok.1 h
    cases h
    exact textual_tagged (by simp) ⟨textual_encode expression below written, trivial⟩
  | .declaration _ name typeName value, ⟨here, below⟩, _, h => by
    rw [encode] at h
    obtain ⟨v, written, h⟩ := Except.bind_eq_ok.1 h
    cases h
    exact textual_tagged (by simp)
      ⟨here.1, here.2, textual_encode value below written, trivial⟩
  | .assignment receiver value, ⟨_, first, second⟩, _, h => by
    rw [encode] at h
    obtain ⟨r, writtenFirst, h⟩ := Except.bind_eq_ok.1 h
    obtain ⟨v, writtenSecond, h⟩ := Except.bind_eq_ok.1 h
    cases h
    exact textual_tagged (by simp) ⟨textual_encode receiver first writtenFirst,
      textual_encode value second writtenSecond, trivial⟩
  | .conditional condition thenStatements elseStatements, ⟨_, first, second, third⟩, _, h => by
    rw [encode] at h
    obtain ⟨c, writtenFirst, h⟩ := Except.bind_eq_ok.1 h
    obtain ⟨t, writtenSecond, h⟩ := Except.bind_eq_ok.1 h
    obtain ⟨e, writtenThird, h⟩ := Except.bind_eq_ok.1 h
    cases h
    exact textual_tagged (by simp) ⟨textual_encode condition first writtenFirst,
      textual_encode thenStatements second writtenSecond,
      textual_encode elseStatements third writtenThird, trivial⟩
  | .case value statements, ⟨_, first, second⟩, _, h => by
    rw [encode] at h
    obtain ⟨v, writtenFirst, h⟩ := Except.bind_eq_ok.1 h
    obtain ⟨s, writtenSecond, h⟩ := Except.bind_eq_ok.1 h
    cases h
    exact textual_tagged (by simp) ⟨textual_encode value first writtenFirst,
      textual_encode statements second writtenSecond, trivial⟩
  | .switch condition cases, ⟨_, first, second⟩, _, h => by
    rw [encode] at h
    obtain ⟨c, writtenFirst, h⟩ := Except.bind_eq_ok.1 h
    obtain ⟨s, writtenSecond, h⟩ := Except.bind_eq_ok.1 h
    cases h
    exact textual_tagged (by simp) ⟨textual_encode condition first writtenFirst,
      textual_encode cases second writtenSecond, trivial⟩
  | .loop condition statements, ⟨_, first, second⟩, _, h => by
    rw [encode] at h
    obtain ⟨c, writtenFirst, h⟩ := Except.bind_eq_ok.1 h
    obtain ⟨s, writtenSecond, h⟩ := Except.bind_eq_ok.1 h
    cases h
    exact textual_tagged (by simp) ⟨textual_encode condition first writtenFirst,
      textual_encode statements second writtenSecond, trivial⟩
  | .ret value, ⟨_, below⟩, _, h => by
    rw [encode] at h
    obtain ⟨v, written, h⟩ := Except.bind_eq_ok.1 h
    cases h
    exact textual_tagged (by simp) ⟨textual_encode value below written, trivial⟩
  | .literal _ value, here, _, h => by
    rw [encode] at h
    obtain ⟨v, written, h⟩ := Except.bind_eq_ok.1 h
    cases h
    exact textual_tagged (by simp) ⟨here v written, trivial⟩
  | .group _ expression, ⟨_, below⟩, _, h => by
    rw [encode] at h
    obtain ⟨e, written, h⟩ := Except.bind_eq_ok.1 h
    cases h
    exact textual_tagged (by simp) ⟨textual_encode expression below written, trivial⟩
  | .binary _ op left right, ⟨here, first, second⟩, _, h => by
    rw [encode] at h
    obtain ⟨l, writtenFirst, h⟩ := Except.bind_eq_ok.1 h
    obtain ⟨r, writtenSecond, h⟩ := Except.bind_eq_ok.1 h
    cases h
    exact textual_tagged (by simp) ⟨here, textual_encode left first writtenFirst,
      textual_encode right second writtenSecond, trivial⟩
  | .access _ name offset, ⟨here, below⟩, _, h => by
    rw [encode] at h
    obtain ⟨o, written, h⟩ := Except.bind_eq_ok.1 h
    cases h
    exact textual_tagged (by simp) ⟨here, textual_encode offset below written, trivial⟩
  | .call _ name arguments, ⟨here, below⟩, _, h => by
    rw [encode] at h
    obtain ⟨a, written, h⟩ := Except.bind_eq_ok.1 h
    cases h
    exact textual_tagged (by simp) ⟨here, textual_encode arguments below written, trivial⟩
  | .listLiteral _ elements, ⟨_, below⟩, _, h => by
    rw [encode] at h
    obtain ⟨e, written, h⟩ := Except.bind_eq_ok.1 h
    cases h
    exact textual_tagged (by simp) ⟨textual_encode elements below written, trivial⟩

theorem textual_encodeAll : (ns : List (Node α)) → Node.EveryOne Spelled ns →
    ∀ {js : List Json}, encodeAll ns = .ok js → Json.AllTextual js
  | [], _, _, h => by
    cases h
    trivial
  | n :: rest, ⟨first, others⟩, _, h => by
    rw [encodeAll] at h
    obtain ⟨j, writtenFirst, h⟩ := Except.bind_eq_ok.1 h
    obtain ⟨js, writtenOthers, h⟩ := Except.bind_eq_ok.1 h
    cases h
    exact ⟨textual_encode n first writtenFirst, textual_encodeAll rest others writtenOthers⟩
end

end PlcLang.Node
