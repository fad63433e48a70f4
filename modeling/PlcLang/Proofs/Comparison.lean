import Mathlib
import PlcLang.Proofs.Arithmetic
import PlcLang.Proofs.Containment.Values

/-! Equality is an equivalence, and the comparisons of one kind of values are those of one order. -/

namespace PlcLang

/-- What a value comes to: a list is its elements, and a decimal the number that it stands for. -/
inductive Meaning where
  | nil
  | boolean (b : Bool)
  | integer (n : ℤ)
  | decimal (x : ℚ)
  | character (text : String)
  | string (text : String)
  | list (elements : List Meaning)
  | other

/-- The kind of the values that come to this. -/
def Meaning.tag? : Meaning → Option Tag
  | nil => some .nil
  | boolean _ => some .boolean
  | integer _ => some .integer
  | decimal _ => some .decimal
  | character _ => some .character
  | string _ => some .string
  | list _ => some .list
  | other => none

namespace Lists

/-- A value of the language with finite decimals, none of whose lists is inside itself. -/
inductive Acyclic (lists : Lists) : Value → Prop where
  | nil : Acyclic lists .nil
  | boolean (b : Bool) : Acyclic lists (.boolean b)
  | integer (n : ℤ) : Acyclic lists (.integer n)
  | decimal {d : Decimal} (finite : d.isFinite = true) : Acyclic lists (.decimal d)
  | character (text : String) : Acyclic lists (.character (.string text))
  | string (text : String) : Acyclic lists (.string text)
  | list {address : ℕ} (elements : ∀ v ∈ lists.elements address, Acyclic lists v) :
      Acyclic lists (.list address)

/-- Such a value whose lists are at most so many levels deep. -/
def Within (lists : Lists) : ℕ → Value → Prop
  | _, .decimal d => d.isFinite = true
  | _, .character held => ∃ text, held = .string text
  | _, .foreign _ => False
  | 0, .list _ => False
  | depth + 1, .list address => ∀ v ∈ lists.elements address, lists.Within depth v
  | _, _ => True

/-- What a value comes to in so many levels. -/
def meaning (lists : Lists) : ℕ → Value → Meaning
  | _, .nil => .nil
  | _, .boolean b => .boolean b
  | _, .integer n => .integer n
  | _, .decimal d => .decimal d.value
  | _, .character (.string text) => .character text
  | _, .string text => .string text
  | depth + 1, .list address => .list ((lists.elements address).map (lists.meaning depth))
  | _, _ => .other

variable {lists : Lists} {depth k : ℕ} {a b c v : Value}

/-! ### Depth -/

theorem Within.more (h : lists.Within k v) (deep : k ≤ depth) : lists.Within depth v := by
  induction k generalizing depth v with
  | zero =>
    cases v with
    | list address => exact h.elim
    | _ => cases depth <;> exact h
  | succ k ih =>
    obtain ⟨depth, rfl⟩ : ∃ more, depth = more + 1 := ⟨depth - 1, by omega⟩
    cases v with
    | list address => exact fun v mem => ih (h v mem) (by omega)
    | _ => exact h

/-- Some depth is enough for all of some values, if it is for each of them. -/
theorem within_all {vs : List Value} (each : ∀ v ∈ vs, ∃ k, lists.Within k v) :
    ∃ k, ∀ v ∈ vs, lists.Within k v := by
  induction vs with
  | nil => exact ⟨0, List.forall_mem_nil _⟩
  | cons v vs ih =>
    obtain ⟨first, others⟩ := List.forall_mem_cons.1 each
    obtain ⟨j, first⟩ := first
    obtain ⟨k, others⟩ := ih others
    exact ⟨max j k, List.forall_mem_cons.2 ⟨first.more (le_max_left j k),
      fun u mem => (others u mem).more (le_max_right j k)⟩⟩

theorem Acyclic.within (h : lists.Acyclic v) : ∃ k, lists.Within k v := by
  induction h with
  | list _ ih =>
    obtain ⟨k, elements⟩ := within_all ih
    exact ⟨k + 1, elements⟩
  | decimal finite => exact ⟨0, finite⟩
  | character text => exact ⟨0, text, rfl⟩
  | _ => exact ⟨0, trivial⟩

/-- What a value comes to does not depend on how many levels it is given. -/
theorem Within.meaning_eq (h : lists.Within k v) (deep : k ≤ depth) :
    lists.meaning depth v = lists.meaning k v := by
  induction k generalizing depth v with
  | zero =>
    cases v with
    | list address => exact h.elim
    | character held =>
      obtain ⟨text, rfl⟩ := h
      cases depth <;> rfl
    | _ => cases depth <;> rfl
  | succ k ih =>
    obtain ⟨depth, rfl⟩ : ∃ more, depth = more + 1 := ⟨depth - 1, by omega⟩
    cases v with
    | list address =>
      exact congrArg Meaning.list (List.map_congr_left fun v mem => ih (h v mem) (by omega))
    | character held =>
      obtain ⟨text, rfl⟩ := h
      rfl
    | _ => rfl

/-! ### Equality -/

/-- Two values are compared by what they come to. -/
def ComparesMeaning (lists : Lists) (depth : ℕ) (a b : Value) : Prop :=
  ∃ r, lists.equal depth a b = .ok r ∧
    (r = true ↔ lists.meaning depth a = lists.meaning depth b)

/-- Elements are compared in pairs, by what they come to. -/
theorem allPairs_meaning {as bs : List Value} (length : as.length = bs.length)
    (each : ∀ a ∈ as, ∀ b ∈ bs, lists.ComparesMeaning depth a b) :
    ∃ r, allPairs (lists.equal depth) as bs = .ok r ∧
      (r = true ↔ as.map (lists.meaning depth) = bs.map (lists.meaning depth)) := by
  induction as generalizing bs with
  | nil =>
    obtain rfl := List.length_eq_zero_iff.1 length.symm
    exact ⟨true, rfl, by simp⟩
  | cons a as ih =>
    cases bs with
    | nil => cases length
    | cons b bs =>
      obtain ⟨r, same, alike⟩ := each a List.mem_cons_self b List.mem_cons_self
      obtain ⟨rest, others, alikes⟩ := ih (Nat.succ.inj length) fun a ha b hb =>
        each a (List.mem_cons_of_mem _ ha) b (List.mem_cons_of_mem _ hb)
      cases r with
      | true =>
        refine ⟨rest, ?_, ?_⟩
        · rw [allPairs, same]
          exact others
        · rw [List.map_cons, List.map_cons, List.cons_eq_cons, alikes]
          exact (and_iff_right (alike.1 rfl)).symm
      | false =>
        refine ⟨false, ?_, ?_⟩
        · rw [allPairs, same]
          rfl
        · rw [List.map_cons, List.map_cons, List.cons_eq_cons, ← alike]
          simp

/-- Two values of one kind. -/
inductive Pair : Value → Value → Prop where
  | nil : Pair .nil .nil
  | boolean (x y : Bool) : Pair (.boolean x) (.boolean y)
  | integer (m n : ℤ) : Pair (.integer m) (.integer n)
  | decimal {x y : Decimal} (hx : x.isFinite = true) (hy : y.isFinite = true) :
      Pair (.decimal x) (.decimal y)
  | character (s t : String) : Pair (.character (.string s)) (.character (.string t))
  | string (s t : String) : Pair (.string s) (.string t)
  | list (x y : ℕ) : Pair (.list x) (.list y)

theorem Within.character {held : Json} (h : lists.Within depth (.character held)) :
    ∃ text, held = .string text := by
  cases depth <;> exact h

theorem Within.decimal {d : Decimal} (h : lists.Within depth (.decimal d)) :
    d.isFinite = true := by
  cases depth <;> exact h

theorem within_decimal {d : Decimal} (finite : d.isFinite = true) :
    lists.Within depth (.decimal d) := by
  cases depth <;> exact finite

theorem not_within_foreign {value : Foreign} : ¬ lists.Within depth (.foreign value) := by
  cases depth <;> exact id

theorem Within.pair (ha : lists.Within depth a) (hb : lists.Within depth b)
    (same : a.tag = b.tag) : Pair a b := by
  cases b with
  | foreign value => exact (not_within_foreign hb).elim
  | nil => cases a <;> first | exact .nil | cases same | exact (not_within_foreign ha).elim
  | boolean y =>
    cases a <;> first | exact .boolean _ y | cases same | exact (not_within_foreign ha).elim
  | integer n =>
    cases a <;> first | exact .integer _ n | cases same | exact (not_within_foreign ha).elim
  | decimal y =>
    cases a <;> first
      | exact .decimal ha.decimal hb.decimal
      | cases same
      | exact (not_within_foreign ha).elim
  | character held =>
    obtain ⟨t, rfl⟩ := hb.character
    cases a with
    | character held =>
      obtain ⟨s, rfl⟩ := ha.character
      exact .character s t
    | foreign value => exact (not_within_foreign ha).elim
    | _ => cases same
  | string t =>
    cases a <;> first | exact .string _ t | cases same | exact (not_within_foreign ha).elim
  | list y =>
    cases a <;> first | exact .list _ y | cases same | exact (not_within_foreign ha).elim

/-- Values of different kinds are not equal, -/
theorem equal_of_tag_ne (ha : lists.Within depth a) (h : a.tag ≠ b.tag) :
    lists.equal depth a b = .ok false := by
  cases a with
  | foreign value => exact (not_within_foreign ha).elim
  | _ => cases b <;> first | exact absurd rfl h | (cases depth <;> rfl)

theorem tag?_meaning (h : lists.Within depth v) :
    (lists.meaning depth v).tag? = some v.tag := by
  cases v with
  | foreign value => exact (not_within_foreign h).elim
  | character held =>
    obtain ⟨text, rfl⟩ := h.character
    cases depth <;> rfl
  | list address =>
    cases depth with
    | zero => exact h.elim
    | succ depth => rfl
  | _ => cases depth <;> rfl

/-- nor do they come to the same. -/
theorem tag_of_meaning (ha : lists.Within depth a) (hb : lists.Within depth b)
    (same : lists.meaning depth a = lists.meaning depth b) : a.tag = b.tag := by
  have tags := congrArg Meaning.tag? same
  rw [tag?_meaning ha, tag?_meaning hb] at tags
  exact Option.some.inj tags

/-- Decimals are equal where they stand for one number, whatever their exponents. -/
theorem equal_decimals {x y : Decimal} (hx : x.isFinite = true) (hy : y.isFinite = true) :
    ∃ r, lists.equal depth (.decimal x) (.decimal y) = .ok r ∧ (r = true ↔ x.value = y.value) := by
  refine ⟨compare x.value y.value == .eq, ?_, by simp⟩
  have same := Decimal.equal_finite hx hy
  rw [Decimal.compare?_eq hx hy] at same
  cases depth <;>
  · rw [equal, same]
    rfl

/-- Lists are equal where their elements are in pairs. -/
theorem equal_lists {x y : ℕ}
    (each : ∀ a ∈ lists.elements x, ∀ b ∈ lists.elements y, lists.ComparesMeaning depth a b) :
    lists.ComparesMeaning (depth + 1) (.list x) (.list y) := by
  simp only [ComparesMeaning, equal, meaning, Meaning.list.injEq]
  by_cases length : (lists.elements x).length = (lists.elements y).length
  · rw [if_neg (not_not.2 length)]
    exact allPairs_meaning length each
  · rw [if_pos length]
    refine ⟨false, rfl, ?_⟩
    simp only [Bool.false_eq_true, false_iff]
    intro same
    have lengths := congrArg List.length same
    rw [List.length_map, List.length_map] at lengths
    exact length lengths

theorem equal_plain (pair : Pair a b) (plain : ∀ address, a ≠ .list address) :
    lists.ComparesMeaning depth a b := by
  cases pair with
  | nil => exact ⟨true, by cases depth <;> rfl, by simp⟩
  | boolean x y => exact ⟨x == y, by cases depth <;> rfl, by simp [meaning]⟩
  | integer m n => exact ⟨m == n, by cases depth <;> rfl, by simp [meaning]⟩
  | decimal hx hy =>
    obtain ⟨r, same, alike⟩ : ∃ r, lists.equal depth _ _ = .ok r ∧ _ := equal_decimals hx hy
    exact ⟨r, same, by simpa [meaning] using alike⟩
  | character s t =>
    refine ⟨s == t, ?_, by simp [meaning]⟩
    cases depth <;> simp [equal, Json.same]
  | string s t => exact ⟨s == t, by cases depth <;> rfl, by simp [meaning]⟩
  | list x y => exact (plain x rfl).elim

/-- Values are equal where they come to the same. -/
theorem equal_meaning (ha : lists.Within depth a) (hb : lists.Within depth b) :
    lists.ComparesMeaning depth a b := by
  have kinds {depth : ℕ} {a b : Value} (ha : lists.Within depth a) (hb : lists.Within depth b)
      (alike : a.tag = b.tag → lists.ComparesMeaning depth a b) : lists.ComparesMeaning depth a b := by
    by_cases same : a.tag = b.tag
    · exact alike same
    · refine ⟨false, equal_of_tag_ne ha same, ?_⟩
      simpa using fun h => same (tag_of_meaning ha hb h)
  induction depth generalizing a b with
  | zero =>
    exact kinds ha hb fun same => equal_plain (ha.pair hb same) fun _ list => (list ▸ ha).elim
  | succ depth ih =>
    refine kinds ha hb fun same => ?_
    cases ha.pair hb same with
    | list x y => exact equal_lists fun a memA b memB => ih (ha a memA) (hb b memB)
    | _ => exact equal_plain (ha.pair hb same) fun _ list => by cases list

end Lists

/-! ### Order -/

/-- The strict order of what comparable values come to. -/
def Meaning.Below : Meaning → Meaning → Prop
  | .integer m, .integer n => m < n
  | .decimal x, .decimal y => x < y
  | .character s, .character t => s < t
  | .string s, .string t => s < t
  | _, _ => False

theorem Meaning.Below.trans {p q r : Meaning} (h : p.Below q) (h' : q.Below r) : p.Below r := by
  cases p <;> cases q <;> first
    | exact h.elim
    | cases r <;> first | exact h'.elim | exact lt_trans h h'

/-- Only what values of one comparable kind come to is in that order. -/
theorem Meaning.Below.kind {p q : Meaning} (h : p.Below q) :
    p.tag? = q.tag? ∧ ∀ t, p.tag? = some t → t.isComparable = true := by
  cases p <;> cases q <;> first
    | exact h.elim
    | exact ⟨rfl, fun t same => by cases same; rfl⟩

/-- Only values of one comparable kind have an order. -/
theorem Value.order_eq_none {a b : Value} (other : ¬ (a.tag = b.tag ∧ a.tag.isComparable = true)) :
    a.order b = none := by
  unfold Value.order
  split <;> first | exact absurd ⟨rfl, rfl⟩ other | rfl

theorem characterOrder_eq (s t : String) :
    characterOrder (.string s) (.string t) = .ok (compare s t) := by
  rcases lt_trichotomy s t with h | rfl | h
  · simp [characterOrder, Json.order?, Json.same, Json.before?, h, h.ne, compare_lt_iff_lt.2]
  · simp [characterOrder, Json.order?, Json.same]
  · simp [characterOrder, Json.order?, Json.same, Json.before?, h, h.ne', h.not_gt,
      compare_gt_iff_gt.2 h]

namespace Lists

variable {lists : Lists} {depth k : ℕ} {a b c v : Value}

/-- Two values of one comparable kind stand in the order of what they come to. -/
theorem order_meaning (ha : lists.Within depth a) (hb : lists.Within depth b)
    (kind : a.tag = b.tag) (comparable : a.tag.isComparable = true) :
    ∃ o, a.order b = some (.ok o) ∧
      (o = .lt ↔ (lists.meaning depth a).Below (lists.meaning depth b)) ∧
      (o = .eq ↔ lists.meaning depth a = lists.meaning depth b) ∧
      (o = .gt ↔ (lists.meaning depth b).Below (lists.meaning depth a)) := by
  cases ha.pair hb kind with
  | integer m n =>
    refine ⟨compare m n, rfl, ?_⟩
    simp [meaning, Meaning.Below, compare_lt_iff_lt, compare_gt_iff_gt]
  | @decimal x y hx hy =>
    have order : x.order y = .ok (compare x.value y.value) := by
      rw [Decimal.order, Decimal.compare?_eq hx hy]
    refine ⟨compare x.value y.value, ?_, ?_⟩
    · rw [Value.order, order]
      rfl
    · simp [meaning, Meaning.Below, compare_lt_iff_lt, compare_gt_iff_gt]
  | character s t =>
    refine ⟨compare s t, congrArg some (characterOrder_eq s t), ?_⟩
    simp [meaning, Meaning.Below, compare_lt_iff_lt, compare_gt_iff_gt]
  | string s t =>
    refine ⟨compare s t, rfl, ?_⟩
    simp [meaning, Meaning.Below, compare_lt_iff_lt, compare_gt_iff_gt]
  | _ => cases comparable

variable {subject : Option (Node Label)}

theorem less_iff (ha : lists.Within depth a) (hb : lists.Within depth b) :
    lists.apply depth .less a b subject = .ok (.boolean true) ↔
      (lists.meaning depth a).Below (lists.meaning depth b) := by
  by_cases kind : a.tag = b.tag ∧ a.tag.isComparable = true
  · obtain ⟨o, order, less, -, -⟩ := order_meaning ha hb kind.1 kind.2
    rw [← less, apply, Value.ordered, order]
    simp [Except.map]
  · rw [apply, Value.ordered, Value.order_eq_none kind]
    refine iff_of_false (by simp) fun below => kind ?_
    obtain ⟨same, comparable⟩ := below.kind
    rw [tag?_meaning ha, tag?_meaning hb, Option.some.injEq] at same
    exact ⟨same, comparable _ (tag?_meaning ha)⟩

/-- Two values of one comparable kind: one of the three comparisons is true. -/
theorem compared (ha : lists.Within depth a) (hb : lists.Within depth b) (kind : a.tag = b.tag)
    (comparable : a.tag.isComparable = true) (subject : Option (Node Label)) :
    ∃ l e g : Bool, lists.apply depth .less a b subject = .ok (.boolean l) ∧
      lists.apply depth .equal a b subject = .ok (.boolean e) ∧
      lists.apply depth .greater a b subject = .ok (.boolean g) ∧ [l, e, g].count true = 1 ∧
      lists.apply depth .less b a subject = .ok (.boolean g) := by
  obtain ⟨o, order, less, same, greater⟩ := order_meaning ha hb kind comparable
  obtain ⟨o', order', less', -, -⟩ := order_meaning hb ha kind.symm (kind ▸ comparable)
  obtain ⟨r, equal, alike⟩ := equal_meaning ha hb
  have swapped : (o' == .lt) = (o == .gt) := by
    rw [Bool.eq_iff_iff, beq_iff_eq, beq_iff_eq, less', greater]
  have equals : r = (o == .eq) := by
    rw [Bool.eq_iff_iff, beq_iff_eq, alike, same]
  refine ⟨o == .lt, r, o == .gt, ?_, ?_, ?_, ?_, ?_⟩
  · rw [apply, Value.ordered, order]
    rfl
  · rw [apply, equal]
    rfl
  · rw [apply, Value.ordered, order]
    rfl
  · rw [equals]
    cases o <;> rfl
  · rw [← swapped, apply, Value.ordered, order']
    rfl

/-- An order is asked for in vain just of two values that are not of one comparable kind. -/
theorem raises_iff (ha : lists.Within depth a) (hb : lists.Within depth b) {op : Operator}
    (ordering : op = .less ∨ op = .greater) :
    Raises (lists.apply depth op a b subject) .arithmeticType ↔
      a.tag ≠ b.tag ∨ a.tag.isComparable = false := by
  by_cases kind : a.tag = b.tag ∧ a.tag.isComparable = true
  · obtain ⟨l, -, g, less, -, greater, -, -⟩ := compared ha hb kind.1 kind.2 subject
    refine iff_of_false ?_ (by simp [kind, kind.1 ▸ kind.2])
    rcases ordering with rfl | rfl
    · rw [less]
      exact not_raises_ok
    · rw [greater]
      exact not_raises_ok
  · have none := Value.order_eq_none kind
    refine iff_of_true ?_ (by simpa [or_iff_not_imp_left] using kind)
    rcases ordering with rfl | rfl <;>
    · rw [apply, Value.ordered, none]
      exact ⟨_, rfl, rfl⟩

/-- An operator says of two values that it is so. -/
def Says (lists : Lists) (depth : ℕ) (op : Operator) (a b : Value) : Prop :=
  ∀ subject, lists.apply depth op a b subject = .ok (.boolean true)

theorem says_less (ha : lists.Within depth a) (hb : lists.Within depth b) :
    lists.Says depth .less a b ↔ (lists.meaning depth a).Below (lists.meaning depth b) :=
  ⟨fun h => (less_iff ha hb).1 (h none), fun h _ => (less_iff ha hb).2 h⟩

theorem says_equal (ha : lists.Within depth a) (hb : lists.Within depth b) :
    lists.Says depth .equal a b ↔ lists.meaning depth a = lists.meaning depth b := by
  obtain ⟨r, same, alike⟩ := equal_meaning ha hb
  rw [← alike]
  simp [Says, apply, same, Except.map]

theorem equal_more (ha : lists.Within k a) (hb : lists.Within k b) (deep : k ≤ depth) :
    lists.equal depth a b = lists.equal k a b := by
  obtain ⟨r, same, alike⟩ := equal_meaning ha hb
  obtain ⟨r', same', alike'⟩ := equal_meaning (ha.more deep) (hb.more deep)
  rw [ha.meaning_eq deep, hb.meaning_eq deep, ← alike, ← Bool.eq_iff_iff] at alike'
  rw [same, same', alike']

theorem equal_symm (ha : lists.Within depth a) (hb : lists.Within depth b) :
    lists.equal depth b a = lists.equal depth a b := by
  obtain ⟨r, same, alike⟩ := equal_meaning ha hb
  obtain ⟨r', same', alike'⟩ := equal_meaning hb ha
  rw [eq_comm (a := lists.meaning depth b), ← alike, ← Bool.eq_iff_iff] at alike'
  rw [same, same', alike']

/-- One operator says the contrary of the other. -/
theorem apply_unequal {r : Bool} :
    lists.apply depth .equal a b subject = .ok (.boolean r) ↔
      lists.apply depth .unequal a b subject = .ok (.boolean !r) := by
  rw [apply, apply]
  cases lists.equal depth a b <;> simp [Except.map]

end Lists

/-- Equality is an equivalence on the values that are not inside themselves, all of one kind at a
time; decimals are equal by the numbers that they stand for. Of the three comparisons of two values
of one comparable kind one is true, and they are those of one order, in which equal values do not
differ; other values are in no order. -/
theorem equality_and_order (lists : Lists) :
    (∀ v, lists.Acyclic v → ∃ k, ∀ depth ≥ k, lists.Within depth v) ∧
    (∀ k a b, lists.Within k a → lists.Within k b → ∃ r, ∀ depth ≥ k,
      lists.equal depth a b = .ok r ∧ lists.equal depth b a = .ok r) ∧
    ∀ depth,
      (∀ a, lists.Within depth a → lists.Says depth .equal a a) ∧
      (∀ a b, lists.Within depth a → lists.Within depth b →
        (lists.Says depth .equal a b ↔ lists.Says depth .equal b a) ∧
        (lists.Says depth .equal a b → a.tag = b.tag)) ∧
      (∀ a b c, lists.Within depth a → lists.Within depth b → lists.Within depth c →
        lists.Says depth .equal a b → lists.Says depth .equal b c → lists.Says depth .equal a c) ∧
      (∀ x y : Decimal, x.isFinite = true → y.isFinite = true →
        (lists.Says depth .equal (.decimal x) (.decimal y) ↔ x.value = y.value)) ∧
      (∀ a b subject r, lists.apply depth .equal a b subject = .ok (.boolean r) ↔
        lists.apply depth .unequal a b subject = .ok (.boolean !r)) ∧
      (∀ a b, lists.Within depth a → lists.Within depth b → a.tag = b.tag →
        a.tag.isComparable = true → ∀ subject, ∃ l e g : Bool,
          lists.apply depth .less a b subject = .ok (.boolean l) ∧
          lists.apply depth .equal a b subject = .ok (.boolean e) ∧
          lists.apply depth .greater a b subject = .ok (.boolean g) ∧
          [l, e, g].count true = 1 ∧ lists.apply depth .less b a subject = .ok (.boolean g)) ∧
      (∀ a b c, lists.Within depth a → lists.Within depth b → lists.Within depth c →
        lists.Says depth .less a b → lists.Says depth .less b c → lists.Says depth .less a c) ∧
      (∀ a a' b b', lists.Within depth a → lists.Within depth a' → lists.Within depth b →
        lists.Within depth b' → lists.Says depth .equal a a' → lists.Says depth .equal b b' →
        (lists.Says depth .less a b ↔ lists.Says depth .less a' b')) ∧
      (∀ a b op subject, lists.Within depth a → lists.Within depth b →
        op = .less ∨ op = .greater →
        (Raises (lists.apply depth op a b subject) .arithmeticType ↔
          a.tag ≠ b.tag ∨ a.tag.isComparable = false)) := by
  refine ⟨fun v acyclic => ?_, fun k a b ha hb => ?_, fun depth => ⟨fun a ha => ?_,
    fun a b ha hb => ⟨?_, fun same => ?_⟩, fun a b c ha hb hc first second => ?_,
    fun x y hx hy => ?_, fun a b subject r => ?_,
    fun a b ha hb kind comparable subject => Lists.compared ha hb kind comparable subject,
    fun a b c ha hb hc first second => ?_, fun a a' b b' ha ha' hb hb' left right => ?_,
    fun a b op subject ha hb ordering => Lists.raises_iff ha hb ordering⟩⟩
  · obtain ⟨k, within⟩ := acyclic.within
    exact ⟨k, fun depth deep => within.more deep⟩
  · obtain ⟨r, same, -⟩ := Lists.equal_meaning ha hb
    refine ⟨r, fun depth deep => ⟨(Lists.equal_more ha hb deep).trans same, ?_⟩⟩
    rw [Lists.equal_more hb ha deep, Lists.equal_symm ha hb, same]
  · rw [Lists.says_equal ha ha]
  · rw [Lists.says_equal ha hb, Lists.says_equal hb ha, eq_comm]
  · exact Lists.tag_of_meaning ha hb ((Lists.says_equal ha hb).1 same)
  · rw [Lists.says_equal ha hb] at first
    rw [Lists.says_equal hb hc] at second
    rw [Lists.says_equal ha hc]
    exact first.trans second
  · rw [Lists.says_equal (Lists.within_decimal hx) (Lists.within_decimal hy)]
    simp [Lists.meaning]
  · exact Lists.apply_unequal
  · rw [Lists.says_less ha hb] at first
    rw [Lists.says_less hb hc] at second
    rw [Lists.says_less ha hc]
    exact first.trans second
  · rw [Lists.says_equal ha ha'] at left
    rw [Lists.says_equal hb hb'] at right
    rw [Lists.says_less ha hb, Lists.says_less ha' hb', left, right]

/-- A list of `1.0` and a list of `1.00`, and a list of the first one. -/
def Lists.ones : Lists :=
  #[#[.decimal (.finite false 10 (-1))], #[.decimal (.finite false 100 (-2))], #[.list 0]]

theorem ones_compared :
    Lists.ones.Acyclic (.list 2) ∧ (∃ k, ∀ depth ≥ k, Lists.ones.Within depth (.list 2)) ∧
      Lists.ones.Says 1 .equal (.list 0) (.list 1) ∧
      Lists.ones.Says 1 .equal (.list 1) (.list 0) ∧
      ¬ Lists.ones.Says 1 .equal (.integer 1) (.boolean true) ∧
      Lists.ones.Says 1 .less (.integer 1) (.integer 3) ∧
      Raises (Lists.ones.apply 1 .less (.list 0) (.list 1) none) .arithmeticType := by
  have elements : Lists.ones.Acyclic (.list 0) := by
    refine .list fun v mem => ?_
    obtain rfl := List.mem_singleton.1 mem
    exact .decimal rfl
  have nested : Lists.ones.Acyclic (.list 2) := by
    refine .list fun v mem => ?_
    obtain rfl := List.mem_singleton.1 mem
    exact elements
  have first : Lists.ones.Within 1 (.list 0) := by
    intro v mem
    obtain rfl := List.mem_singleton.1 mem
    rfl
  have second : Lists.ones.Within 1 (.list 1) := by
    intro v mem
    obtain rfl := List.mem_singleton.1 mem
    rfl
  have equal : Lists.ones.Says 1 .equal (.list 0) (.list 1) := fun _ => rfl
  obtain ⟨enough, -, laws⟩ := equality_and_order Lists.ones
  obtain ⟨-, symmetric, -, -, -, -, ordered, -, raises⟩ := laws 1
  have apart := (symmetric (.integer 1) (.boolean true) trivial trivial).2
  exact ⟨nested, enough _ nested, equal, ((symmetric _ _ first second).1).1 equal,
    fun same => absurd (apart same) (by decide),
    ordered (.integer 1) (.integer 2) (.integer 3) trivial trivial trivial (fun _ => rfl)
      fun _ => rfl,
    (raises _ _ .less none first second (.inl rfl)).2 (.inr rfl)⟩

end PlcLang
