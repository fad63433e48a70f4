import PlcLang.Proofs.Checking.Judgement
import PlcLang.Proofs.Values.Faults

namespace PlcLang

/-- The kinds of values that an expression of a type may have. Nil is a value of no other type, and
a list of none. -/
def Ty.admits : Ty → Tag → Bool
  | .any, tag => tag.isComparable || tag == .boolean
  | .nil, tag => tag == .nil
  | .comparable, tag => tag.isComparable
  | .boolean, tag => tag == .boolean
  | .integer, tag => tag == .integer
  | .decimal, tag => tag == .decimal
  | .character, tag => tag == .character
  | .string, tag => tag == .string

theorem Ty.admits_of_accepts {t u : Ty} {tag : Tag} (h : t.accepts u = true)
    (hu : u.admits tag = true) : t.admits tag = true := by
  cases t <;> cases u <;> first | contradiction | (cases tag <;> first | rfl | contradiction)

theorem boolean_of_admits {v : Value} (h : Ty.boolean.admits v.tag = true) :
    ∃ b, v = .boolean b := by
  cases v with
  | boolean b => exact ⟨b, rfl⟩
  | foreign f => cases f <;> contradiction
  | _ => contradiction

theorem integer_of_admits {v : Value} (h : Ty.integer.admits v.tag = true) :
    ∃ n, v = .integer n := by
  cases v with
  | integer n => exact ⟨n, rfl⟩
  | foreign f => cases f <;> contradiction
  | _ => contradiction

theorem decimal_of_admits {v : Value} (h : Ty.decimal.admits v.tag = true) :
    ∃ d, v = .decimal d := by
  cases v with
  | decimal d => exact ⟨d, rfl⟩
  | foreign f => cases f <;> contradiction
  | _ => contradiction

/-- The faults that a checked program may still have: they depend on values, not on names. Where
all values are of their types, none of them is of a wrong kind. -/
def Fault.Tolerated (D : Demands) : Fault → Prop
  | .problem p =>
    match p.cause with
    | .immutable _ | .indexRange .. | .divisionByZero | .negativeExponent _ => True
    | .notBoolean _ | .notIndexable _ | .indexTag _ | .incomparable .. | .unsupportedOperands .. =>
      ¬ D.typed
    | _ => False
  | .longInteger => True
  | .decimal _ => True
  | .unexpectedNode .. => False
  | .unfit u => u = .notAText ∨ u = .unordered ∨ (u = .notAList ∧ ¬ D.typed)
  | .tooDeep => True

variable {D : Demands}

theorem Fault.tolerated_ofInteger {n : Int} {cause : Int → Cause} {subject : Option (Node Label)}
    (h : (Fault.ofCause (cause n) subject).Tolerated D) :
    (Fault.ofInteger n cause subject).Tolerated D := by
  unfold Fault.ofInteger
  split
  · exact h
  · trivial

/-- What a computation comes to: a value of a type, or a tolerated fault. -/
def Meets (D : Demands) (t : Ty) : Except Fault Value → Prop
  | .ok v => D.typed → t.admits v.tag = true
  | .error f => f.Tolerated D

theorem Meets.of_untyped {t u : Ty} {x : Except Fault Value} (h : Meets D t x) (d : ¬ D.typed) :
    Meets D u x := by
  cases x with
  | error f => exact h
  | ok v => exact fun typed => (d typed).elim

/-- The faults of a computation are tolerated. -/
def Tolerable {α : Type} (D : Demands) (x : Except Fault α) : Prop :=
  ∀ f, x = .error f → f.Tolerated D

theorem Tolerable.ok {α : Type} {a : α} : Tolerable D (.ok a : Except Fault α) :=
  fun _ h => by cases h

theorem Tolerable.error {α : Type} {f : Fault} (h : f.Tolerated D) :
    Tolerable D (.error f : Except Fault α) :=
  fun _ he => by
    cases he
    exact h

theorem Tolerable.bind {α β : Type} {x : Except Fault α} {k : α → Except Fault β}
    (hx : Tolerable D x) (hk : ∀ a, Tolerable D (k a)) : Tolerable D (x >>= k) := by
  cases x with
  | error f => exact .error (hx f rfl)
  | ok a => exact hk a

theorem Tolerable.map {α β : Type} {x : Except Fault α} {g : α → β} (hx : Tolerable D x) :
    Tolerable D (x.map g) := by
  cases x with
  | error f => exact .error (hx f rfl)
  | ok a => exact .ok

theorem Tolerable.signal {α : Type} {x : Except Decimal.Signal α} :
    Tolerable D (x.mapError .decimal) := by
  cases x with
  | error f => exact .error trivial
  | ok a => exact .ok

theorem Tolerable.mapM {α β : Type} {g : α → Except Fault β} (hg : ∀ a, Tolerable D (g a))
    (xs : List α) : Tolerable D (xs.mapM g) := by
  induction xs with
  | nil => exact .ok
  | cons x xs ih =>
    rw [List.mapM_cons]
    exact (hg x).bind fun _ => ih.bind fun _ => .ok

theorem Tolerable.meets {t : Ty} {x : Except Fault Value} (hx : Tolerable D x)
    (h : ∀ v, x = .ok v → D.typed → t.admits v.tag = true) : Meets D t x := by
  cases x with
  | error f => exact hx f rfl
  | ok v => exact h v rfl

namespace Lists

variable (lists : Lists)

theorem text_tolerable (depth : Nat) (v : Value) : Tolerable D (lists.text depth v) := by
  intro f fails
  rcases text_faults fails with rfl | rfl | rfl
  · trivial
  · exact Or.inl rfl
  · trivial

theorem equal_tolerable (depth : Nat) (a b : Value) : Tolerable D (lists.equal depth a b) := by
  intro f fails
  rcases equal_faults fails with rfl | ⟨signal, rfl⟩ <;> trivial

end Lists

theorem characterOrder_tolerable (a b : Json) : Tolerable D (characterOrder a b) := by
  unfold characterOrder
  split
  · exact .ok
  · exact .error (Or.inr (Or.inl rfl))

theorem order_tolerable {a b : Value} {x : Except Fault Ordering} (h : a.order b = some x) :
    Tolerable D x := by
  unfold Value.order at h
  split at h
  · cases h
    exact .ok
  · cases h
    exact .signal
  · cases h
    exact characterOrder_tolerable _ _
  · cases h
    exact .ok
  · cases h

/-- Values of one type that has an order are of one kind. -/
theorem order_isSome {t : Ty} {a b : Value} (ht : Ty.comparable.accepts t = true)
    (hc : t ≠ .comparable) (ha : t.admits a.tag = true) (hb : t.admits b.tag = true) :
    (a.order b).isSome = true := by
  cases t <;> first | contradiction | skip
  all_goals
    cases a <;> first | contradiction | skip
    all_goals cases b <;> first | contradiction | rfl | skip
  all_goals rename_i x y
  all_goals cases x <;> first | contradiction | skip
  all_goals cases y <;> contradiction

end PlcLang
