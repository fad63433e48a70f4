import PlcLang.Proofs.Arrays
import PlcLang.Proofs.Tree.Map
import PlcLang.Value.Operators
import PlcLang.Store

namespace PlcLang

/-- Other identities for all that a program and its run make. Labels become other labels, no two the
same; checks get later numbers; and what has a number in a store comes behind what is in `base`. -/
structure Relocation where
  label : Label → Label
  injective : Function.Injective label
  checks : Nat
  base : Store

/-- A list has another address. -/
def Value.relocate (r : Relocation) : Value → Value
  | .list address => .list (r.base.lists.size + address)
  | v => v

def Lists.relocate (r : Relocation) (lists : Lists) : Lists :=
  r.base.lists ++ lists.map fun items => items.map (Value.relocate r)

/-- A fault names a node by its new labels. -/
def Fault.relocate (r : Relocation) : Fault → Fault
  | .problem p => .problem ⟨p.cause, p.subject.map (Node.map r.label)⟩
  | f => f

/-- What comes of a computation with other identities. -/
def Relocation.result (r : Relocation) {α β : Type} (g : α → β) : Except Fault α → Except Fault β
  | .ok a => .ok (g a)
  | .error f => .error (f.relocate r)

namespace Relocation

variable {r : Relocation} {α β γ δ : Type} {g : α → β}

theorem result_bind {x : Except Fault α} {x' : Except Fault β} {k : α → Except Fault γ}
    {k' : β → Except Fault δ} {g' : γ → δ} (hx : x' = r.result g x)
    (hk : ∀ a, k' (g a) = r.result g' (k a)) : x' >>= k' = r.result g' (x >>= k) := by
  subst hx
  cases x with
  | ok a => exact hk a
  | error f => rfl

theorem result_map {x : Except Fault α} {x' : Except Fault β} {k : α → γ} {k' : β → δ} {g' : γ → δ}
    (hx : x' = r.result g x) (hk : ∀ a, k' (g a) = g' (k a)) :
    x'.map k' = r.result g' (x.map k) := by
  subst hx
  cases x with
  | ok a => exact congrArg Except.ok (hk a)
  | error f => rfl

theorem result_mapM {k : α → Except Fault γ} {k' : β → Except Fault γ}
    (hk : ∀ a, k' (g a) = r.result id (k a)) (l : List α) :
    (l.map g).mapM k' = r.result id (l.mapM k) := by
  induction l with
  | nil => rfl
  | cons a l ih =>
    rw [List.map_cons, List.mapM_cons, List.mapM_cons]
    exact result_bind (hk a) fun _ => result_bind ih fun _ => rfl

end Relocation

section

variable {r : Relocation} {lists : Lists}

@[simp]
theorem Value.tag_relocate (v : Value) : (v.relocate r).tag = v.tag := by
  cases v <;> rfl

/-- The elements of a list, with their lists at other addresses. -/
theorem Lists.elements_relocate (address : Nat) :
    (lists.relocate r).elements (r.base.lists.size + address) =
      (lists.elements address).map (Value.relocate r) := by
  rw [Lists.elements, Lists.elements, Lists.relocate, getElem?_behind]
  cases lists[address]? with
  | none => rfl
  | some items => exact Array.toList_map

/-- Values have the same text wherever their lists are. -/
theorem Lists.text_relocate (depth : Nat) (v : Value) :
    (lists.relocate r).text depth (v.relocate r) = r.result id (lists.text depth v) := by
  have simple {depth : Nat} {v : Value} (plain : ∀ address, v ≠ .list address) :
      (lists.relocate r).text depth (v.relocate r) = r.result id (lists.text depth v) := by
    cases v with
    | integer n =>
      cases depth <;>
      · simp only [Value.relocate, Lists.text]
        split <;> rfl
    | character content => cases depth <;> cases content <;> rfl
    | list address => exact (plain address rfl).elim
    | _ => cases depth <;> rfl
  induction depth generalizing v with
  | zero =>
    cases v with
    | list address => rfl
    | _ => exact simple fun _ same => by cases same
  | succ depth ih =>
    cases v with
    | list address =>
      simp only [Value.relocate, Lists.text, Lists.elements_relocate]
      exact Relocation.result_bind (Relocation.result_mapM ih _) fun _ => rfl
    | _ => exact simple fun _ same => by cases same

theorem Lists.allPairs_relocate {test test' : Value → Value → Except Fault Bool}
    (same : ∀ a b, test' (a.relocate r) (b.relocate r) = r.result id (test a b))
    (as bs : List Value) :
    Lists.allPairs test' (as.map (Value.relocate r)) (bs.map (Value.relocate r)) =
      r.result id (Lists.allPairs test as bs) := by
  induction as generalizing bs with
  | nil => cases bs <;> rfl
  | cons a as ih =>
    cases bs with
    | nil => rfl
    | cons b bs =>
      refine Relocation.result_bind (same a b) fun equal => ?_
      cases equal with
      | true => exact ih bs
      | false => rfl

/-- Values are equal or not wherever their lists are. -/
theorem Lists.equal_relocate (depth : Nat) (a b : Value) :
    (lists.relocate r).equal depth (a.relocate r) (b.relocate r) =
      r.result id (lists.equal depth a b) := by
  have simple {depth : Nat} {a b : Value} (plain : ∀ address, a ≠ .list address) :
      (lists.relocate r).equal depth (a.relocate r) (b.relocate r) =
        r.result id (lists.equal depth a b) := by
    cases a with
    | decimal d =>
      cases b with
      | decimal d' =>
        cases depth <;>
        · simp only [Value.relocate, Lists.equal]
          cases d.equal d' <;> rfl
      | _ => cases depth <;> rfl
    | list address => exact (plain address rfl).elim
    | _ => cases b <;> cases depth <;> rfl
  induction depth generalizing a b with
  | zero =>
    cases a with
    | list first => cases b <;> rfl
    | _ => exact simple fun _ same => by cases same
  | succ depth ih =>
    cases a with
    | list first =>
      cases b with
      | list second =>
        simp only [Value.relocate, Lists.equal, Lists.elements_relocate, List.length_map]
        split
        · rfl
        · exact Lists.allPairs_relocate ih _ _
      | _ => rfl
    | _ => exact simple fun _ same => by cases same

/-! A rule shows a node only in its faults. -/

theorem Fault.ofInteger_relocate (n : Int) (cause : Int → Cause) (subject : Option (Node Label)) :
    (Fault.ofInteger n cause subject).relocate r =
      .ofInteger n cause (subject.map (Node.map r.label)) := by
  unfold Fault.ofInteger
  split <;> rfl

section

variable (op : Operator) (a b : Value) (subject : Option (Node Label))

theorem integerResult_relocate (m n : Int) :
    integerResult op m n (subject.map (Node.map r.label)) =
      r.result (Value.relocate r) (integerResult op m n subject) := by
  unfold integerResult
  split
  case h_4 => split <;> rfl
  all_goals rfl

theorem decimalResult_relocate (m n : Decimal) :
    decimalResult op m n (subject.map (Node.map r.label)) =
      r.result (Value.relocate r) (decimalResult op m n subject) := by
  have kept (x : Except Decimal.Signal Decimal) :
      (x.map Value.decimal).mapError Fault.decimal =
        r.result (Value.relocate r) ((x.map Value.decimal).mapError Fault.decimal) := by
    cases x <;> rfl
  unfold decimalResult
  split
  case h_4 =>
    split
    · rfl
    · exact kept _
  all_goals exact kept _

theorem arithmetic_relocate :
    arithmetic op (a.relocate r) (b.relocate r) (subject.map (Node.map r.label)) =
      r.result (Value.relocate r) (arithmetic op a b subject) := by
  cases a with
  | integer m =>
    cases b with
    | integer n => exact integerResult_relocate ..
    | _ => rfl
  | decimal m =>
    cases b with
    | decimal n => exact decimalResult_relocate ..
    | _ => rfl
  | _ => cases b <;> rfl

theorem ordered_relocate (wanted : Ordering) :
    Value.ordered wanted (a.relocate r) (b.relocate r) (subject.map (Node.map r.label)) =
      r.result (Value.relocate r) (Value.ordered wanted a b subject) := by
  cases a with
  | decimal d =>
    cases b with
    | decimal d' =>
      simp only [Value.relocate, Value.ordered, Value.order]
      cases d.order d' <;> rfl
    | _ => rfl
  | character c =>
    cases b with
    | character c' =>
      simp only [Value.relocate, Value.ordered, Value.order, characterOrder]
      cases c.order? c' <;> rfl
    | _ => rfl
  | _ => cases b <;> rfl

/-- What an operator comes to, wherever the lists in its operands are. -/
theorem Lists.apply_relocate (depth : Nat) :
    (lists.relocate r).apply depth op (a.relocate r) (b.relocate r)
        (subject.map (Node.map r.label)) =
      r.result (Value.relocate r) (lists.apply depth op a b subject) := by
  cases op with
  | equal | unequal => exact Relocation.result_map (Lists.equal_relocate ..) fun _ => rfl
  | less | greater => exact ordered_relocate ..
  | plus =>
    simp only [Lists.apply, Value.tag_relocate]
    split
    · exact Relocation.result_bind (Lists.text_relocate ..) fun _ =>
        Relocation.result_bind (Lists.text_relocate ..) fun _ => rfl
    · exact arithmetic_relocate ..
  | minus | times | divide => exact arithmetic_relocate ..
  | power =>
    cases a with
    | integer base =>
      cases b with
      | integer exponent =>
        simp only [Value.relocate, Lists.apply]
        split
        · exact congrArg Except.error (Fault.ofInteger_relocate ..).symm
        · rfl
      | _ => rfl
    | _ => cases b <;> rfl
  | and | or | other => rfl

end

end

end PlcLang
