import PlcLang.Interchange.Encoding
import PlcLang.Proofs.Interchange.Reading
import PlcLang.Proofs.Values.Numerals

/-! What is written of a tree reads back as the tree. -/

namespace PlcLang

theorem decode_literal_encode {l : Literal} {j : Json} (range : l.InRange)
    (h : l.encode = .ok j) : Literal.decode j = .ok l := by
  cases l with
  | nil =>
    cases h
    rfl
  | boolean b =>
    cases h
    rfl
  | integer n =>
    simp only [Literal.encode] at h
    split at h
    · rename_i text written
      cases h
      have read := Integer.ofText_text? written
      show ((Integer.ofText text).mapError DecodeError.integer >>= fun n => pure (Literal.integer n)) = _
      rw [read]
      rfl
    · cases h
  | decimal d =>
    cases h
    have read := Decimal.ofText_toText range
    show ((Decimal.ofText d.toText).mapError DecodeError.decimal >>= fun d => pure (Literal.decimal d)) = _
    rw [read]
    rfl
  | character content =>
    cases h
    rfl
  | string text =>
    cases h
    rfl
  | foreign value => cases h

namespace Node

/-- Only nothing and the empty list are written as something empty. -/
theorem eq_nil_of_encode {n : Node Unit} {j : Json} (h : n.encode = .ok j)
    (falsy : j.truthy = false) (there : n.isAbsent = false) : n = .list [] := by
  cases n with
  | absent => cases there
  | list items =>
    cases items with
    | nil => rfl
    | cons n rest =>
      rw [encode, encodeAll] at h
      obtain ⟨js, written, h⟩ := Except.bind_eq_ok.1 h
      obtain ⟨first, -, written⟩ := Except.bind_eq_ok.1 written
      obtain ⟨others, -, written⟩ := Except.bind_eq_ok.1 written
      cases written
      cases h
      cases falsy
  | _ =>
    rw [encode] at h
    repeat obtain ⟨_, -, h⟩ := Except.bind_eq_ok.1 h
    cases h
    cases falsy

mutual
/-- A settled tree is what its JSON form stands for. -/
theorem decode_encode : (n : Node Unit) → ∀ {j : Json}, n.Every Settled → n.encode = .ok j →
    decode j = .ok n
  | .absent, j, _, h => by
    cases h
    rfl
  | .list items, j, settled, h => by
    rw [encode] at h
    obtain ⟨js, written, h⟩ := Except.bind_eq_ok.1 h
    cases h
    have read := decodeAll_encodeAll items settled.2 written
    rw [decode, read]
    rfl
  | .source globals functions, j, ⟨_, hg, hf⟩, h => by
    rw [encode] at h
    obtain ⟨jg, wg, h⟩ := Except.bind_eq_ok.1 h
    obtain ⟨jf, wf, h⟩ := Except.bind_eq_ok.1 h
    cases h
    have rg := decode_encode globals hg wg
    have rf := decode_encode functions hf wf
    simp only [tagged, decode, decodeMembers, rg, rf]
    rfl
  | .global () name isMutable typeName value, j, ⟨_, hv⟩, h => by
    rw [encode] at h
    obtain ⟨jv, wv, h⟩ := Except.bind_eq_ok.1 h
    cases h
    have rv := decode_encode value hv wv
    simp only [tagged, decode, decodeMembers, rv]
    rfl
  | .parameter () name typeName, j, _, h => by
    rw [encode] at h
    cases h
    simp only [tagged, decode, decodeMembers]
    rfl
  | .function () name parameters returnTypeName statements, j, ⟨_, hp, hs⟩, h => by
    rw [encode] at h
    obtain ⟨jp, wp, h⟩ := Except.bind_eq_ok.1 h
    obtain ⟨js, ws, h⟩ := Except.bind_eq_ok.1 h
    cases h
    have rp := decode_encode parameters hp wp
    have rs := decode_encode statements hs ws
    simp only [tagged, decode, decodeMembers, rp, rs]
    rfl
  | .expressionStmt expression, j, ⟨_, he⟩, h => by
    rw [encode] at h
    obtain ⟨je, we, h⟩ := Except.bind_eq_ok.1 h
    cases h
    have re := decode_encode expression he we
    simp only [tagged, decode, decodeMembers, re]
    rfl
  | .declaration () name typeName value, j, ⟨_, hv⟩, h => by
    rw [encode] at h
    obtain ⟨jv, wv, h⟩ := Except.bind_eq_ok.1 h
    cases h
    have rv := decode_encode value hv wv
    simp only [tagged, decode, decodeMembers, rv]
    rfl
  | .assignment receiver value, j, ⟨_, hr, hv⟩, h => by
    rw [encode] at h
    obtain ⟨jr, wr, h⟩ := Except.bind_eq_ok.1 h
    obtain ⟨jv, wv, h⟩ := Except.bind_eq_ok.1 h
    cases h
    have rr := decode_encode receiver hr wr
    have rv := decode_encode value hv wv
    simp only [tagged, decode, decodeMembers, rr, rv]
    rfl
  | .conditional condition thenStatements elseStatements, j, ⟨there, hc, ht, he⟩, h => by
    rw [encode] at h
    obtain ⟨jc, wc, h⟩ := Except.bind_eq_ok.1 h
    obtain ⟨jt, wt, h⟩ := Except.bind_eq_ok.1 h
    obtain ⟨je, we, h⟩ := Except.bind_eq_ok.1 h
    cases h
    have rc := decode_encode condition hc wc
    have rt := decode_encode thenStatements ht wt
    have re := decode_encode elseStatements he we
    simp only [tagged, decode, decodeMembers, rc, rt, re]
    by_cases given : je.truthy = true
    · exact if_pos given
    · obtain rfl := eq_nil_of_encode we (by simpa using given) there
      exact if_neg given
  | .case value statements, j, ⟨_, hv, hs⟩, h => by
    rw [encode] at h
    obtain ⟨jv, wv, h⟩ := Except.bind_eq_ok.1 h
    obtain ⟨js, ws, h⟩ := Except.bind_eq_ok.1 h
    cases h
    have rv := decode_encode value hv wv
    have rs := decode_encode statements hs ws
    simp only [tagged, decode, decodeMembers, rv, rs]
    rfl
  | .switch condition cases, j, ⟨_, hc, hs⟩, h => by
    rw [encode] at h
    obtain ⟨jc, wc, h⟩ := Except.bind_eq_ok.1 h
    obtain ⟨js, ws, h⟩ := Except.bind_eq_ok.1 h
    cases h
    have rc := decode_encode condition hc wc
    have rs := decode_encode cases hs ws
    simp only [tagged, decode, decodeMembers, rc, rs]
    rfl
  | .loop condition statements, j, ⟨_, hc, hs⟩, h => by
    rw [encode] at h
    obtain ⟨jc, wc, h⟩ := Except.bind_eq_ok.1 h
    obtain ⟨js, ws, h⟩ := Except.bind_eq_ok.1 h
    cases h
    have rc := decode_encode condition hc wc
    have rs := decode_encode statements hs ws
    simp only [tagged, decode, decodeMembers, rc, rs]
    rfl
  | .ret value, j, ⟨_, hv⟩, h => by
    rw [encode] at h
    obtain ⟨jv, wv, h⟩ := Except.bind_eq_ok.1 h
    cases h
    have rv := decode_encode value hv wv
    simp only [tagged, decode, decodeMembers, rv]
    rfl
  | .literal () value, j, range, h => by
    rw [encode] at h
    obtain ⟨jv, wv, h⟩ := Except.bind_eq_ok.1 h
    cases h
    have rv := decode_literal_encode range wv
    simp only [tagged, decode]
    show (Literal.decode jv >>= fun value => pure (literal () value)) = _
    rw [rv]
    rfl
  | .group () expression, j, ⟨_, he⟩, h => by
    rw [encode] at h
    obtain ⟨je, we, h⟩ := Except.bind_eq_ok.1 h
    cases h
    have re := decode_encode expression he we
    simp only [tagged, decode, decodeMembers, re]
    rfl
  | .binary () op left right, j, ⟨known, hl, hr⟩, h => by
    rw [encode] at h
    obtain ⟨jl, wl, h⟩ := Except.bind_eq_ok.1 h
    obtain ⟨jr, wr, h⟩ := Except.bind_eq_ok.1 h
    cases h
    have rl := decode_encode left hl wl
    have rr := decode_encode right hr wr
    simp only [tagged, decode, decodeMembers, rl, rr]
    show Except.ok (binary () (.ofJson op.toJson) left right) = _
    rw [show Operator.ofJson op.toJson = op from known]
  | .access () name offset, j, ⟨_, ho⟩, h => by
    rw [encode] at h
    obtain ⟨jo, wo, h⟩ := Except.bind_eq_ok.1 h
    cases h
    have ro := decode_encode offset ho wo
    simp only [tagged, decode, decodeMembers, ro]
    rfl
  | .call () name arguments, j, ⟨_, ha⟩, h => by
    rw [encode] at h
    obtain ⟨ja, wa, h⟩ := Except.bind_eq_ok.1 h
    cases h
    have ra := decode_encode arguments ha wa
    simp only [tagged, decode, decodeMembers, ra]
    rfl
  | .listLiteral () elements, j, ⟨_, he⟩, h => by
    rw [encode] at h
    obtain ⟨je, we, h⟩ := Except.bind_eq_ok.1 h
    cases h
    have re := decode_encode elements he we
    simp only [tagged, decode, decodeMembers, re]
    rfl

theorem decodeAll_encodeAll : (ns : List (Node Unit)) → ∀ {js : List Json},
    EveryOne Settled ns → encodeAll ns = .ok js → decodeAll js = .ok ns
  | [], js, _, h => by
    cases h
    rfl
  | n :: rest, js, ⟨first, others⟩, h => by
    rw [encodeAll] at h
    obtain ⟨j, written, h⟩ := Except.bind_eq_ok.1 h
    obtain ⟨more, writtenAll, h⟩ := Except.bind_eq_ok.1 h
    cases h
    rw [decodeAll, decode_encode n first written, decodeAll_encodeAll rest others writtenAll]
    rfl
end

/-- The literal of a node has a JSON form. -/
def Writable : Node Unit → Prop
  | literal _ value => ∃ j, value.encode = .ok j
  | _ => True

mutual
/-- A tree has a JSON form if its literals have. -/
theorem encode_of_writable : (n : Node Unit) → n.Every Writable → ∃ j, n.encode = .ok j
  | .absent, _ => ⟨_, rfl⟩
  | .list items, ⟨_, below⟩ => by
    obtain ⟨js, written⟩ := encodeAll_of_writable items below
    exact ⟨_, by rw [encode, written]; rfl⟩
  | .source globals functions, ⟨_, first, second⟩ => by
    obtain ⟨_, writtenFirst⟩ := encode_of_writable globals first
    obtain ⟨_, writtenSecond⟩ := encode_of_writable functions second
    exact ⟨_, by rw [encode, writtenFirst, writtenSecond]; rfl⟩
  | .global _ _ _ _ value, ⟨_, below⟩ => by
    obtain ⟨_, written⟩ := encode_of_writable value below
    exact ⟨_, by rw [encode, written]; rfl⟩
  | .parameter .., _ => ⟨_, rfl⟩
  | .function _ _ parameters _ statements, ⟨_, first, second⟩ => by
    obtain ⟨_, writtenFirst⟩ := encode_of_writable parameters first
    obtain ⟨_, writtenSecond⟩ := encode_of_writable statements second
    exact ⟨_, by rw [encode, writtenFirst, writtenSecond]; rfl⟩
  | .expressionStmt expression, ⟨_, below⟩ => by
    obtain ⟨_, written⟩ := encode_of_writable expression below
    exact ⟨_, by rw [encode, written]; rfl⟩
  | .declaration _ _ _ value, ⟨_, below⟩ => by
    obtain ⟨_, written⟩ := encode_of_writable value below
    exact ⟨_, by rw [encode, written]; rfl⟩
  | .assignment receiver value, ⟨_, first, second⟩ => by
    obtain ⟨_, writtenFirst⟩ := encode_of_writable receiver first
    obtain ⟨_, writtenSecond⟩ := encode_of_writable value second
    exact ⟨_, by rw [encode, writtenFirst, writtenSecond]; rfl⟩
  | .conditional condition thenStatements elseStatements, ⟨_, first, second, third⟩ => by
    obtain ⟨_, writtenFirst⟩ := encode_of_writable condition first
    obtain ⟨_, writtenSecond⟩ := encode_of_writable thenStatements second
    obtain ⟨_, writtenThird⟩ := encode_of_writable elseStatements third
    exact ⟨_, by rw [encode, writtenFirst, writtenSecond, writtenThird]; rfl⟩
  | .case value statements, ⟨_, first, second⟩ => by
    obtain ⟨_, writtenFirst⟩ := encode_of_writable value first
    obtain ⟨_, writtenSecond⟩ := encode_of_writable statements second
    exact ⟨_, by rw [encode, writtenFirst, writtenSecond]; rfl⟩
  | .switch condition cases, ⟨_, first, second⟩ => by
    obtain ⟨_, writtenFirst⟩ := encode_of_writable condition first
    obtain ⟨_, writtenSecond⟩ := encode_of_writable cases second
    exact ⟨_, by rw [encode, writtenFirst, writtenSecond]; rfl⟩
  | .loop condition statements, ⟨_, first, second⟩ => by
    obtain ⟨_, writtenFirst⟩ := encode_of_writable condition first
    obtain ⟨_, writtenSecond⟩ := encode_of_writable statements second
    exact ⟨_, by rw [encode, writtenFirst, writtenSecond]; rfl⟩
  | .ret value, ⟨_, below⟩ => by
    obtain ⟨_, written⟩ := encode_of_writable value below
    exact ⟨_, by rw [encode, written]; rfl⟩
  | .literal _ value, ⟨_, written⟩ => ⟨_, by rw [encode, written]; rfl⟩
  | .group _ expression, ⟨_, below⟩ => by
    obtain ⟨_, written⟩ := encode_of_writable expression below
    exact ⟨_, by rw [encode, written]; rfl⟩
  | .binary _ _ left right, ⟨_, first, second⟩ => by
    obtain ⟨_, writtenFirst⟩ := encode_of_writable left first
    obtain ⟨_, writtenSecond⟩ := encode_of_writable right second
    exact ⟨_, by rw [encode, writtenFirst, writtenSecond]; rfl⟩
  | .access _ _ offset, ⟨_, below⟩ => by
    obtain ⟨_, written⟩ := encode_of_writable offset below
    exact ⟨_, by rw [encode, written]; rfl⟩
  | .call _ _ arguments, ⟨_, below⟩ => by
    obtain ⟨_, written⟩ := encode_of_writable arguments below
    exact ⟨_, by rw [encode, written]; rfl⟩
  | .listLiteral _ elements, ⟨_, below⟩ => by
    obtain ⟨_, written⟩ := encode_of_writable elements below
    exact ⟨_, by rw [encode, written]; rfl⟩

theorem encodeAll_of_writable :
    (ns : List (Node Unit)) → EveryOne Writable ns → ∃ js, encodeAll ns = .ok js
  | [], _ => ⟨_, rfl⟩
  | n :: rest, ⟨first, others⟩ => by
    obtain ⟨_, writtenFirst⟩ := encode_of_writable n first
    obtain ⟨_, writtenOthers⟩ := encodeAll_of_writable rest others
    exact ⟨_, by rw [encodeAll, writtenFirst, writtenOthers]; rfl⟩
end

end Node

end PlcLang
