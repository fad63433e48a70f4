import PlcLang.Machine.Step
import PlcLang.Proofs.Containment.Values
import PlcLang.Proofs.Running.Storage
import PlcLang.Proofs.Tree.Labels
import PlcLang.Proofs.Tree.Parts

/-! Programs as texts give them, and all that is at hand while they run. -/

namespace PlcLang

/-! ### Trees -/

/-- A slot for a list holds one. -/
def Node.Listed {α : Type} (n : Node α) : Prop :=
  ∃ items, n.items = .ok items

/-- Where a node has a slot for a list there is one, and a literal is a value that texts have. -/
def Node.Regular {α : Type} : Node α → Prop
  | .source globals functions => globals.Listed ∧ functions.Listed
  | .function _ _ parameters _ statements => parameters.Listed ∧ statements.Listed
  | .conditional _ thenStatements elseStatements => thenStatements.Listed ∧ elseStatements.Listed
  | .switch _ cases => cases.Listed
  | .case _ statements | .loop _ statements => statements.Listed
  | .literal _ value => value.value.Regular
  | .call _ _ arguments => arguments.Listed
  | .listLiteral _ elements => elements.Listed
  | _ => True

abbrev Node.AllRegular {α : Type} (n : Node α) : Prop :=
  n.Every Node.Regular

abbrev Node.EachRegular {α : Type} (ns : List (Node α)) : Prop :=
  Node.EveryOne Node.Regular ns

/-- A slot holds a list of such nodes. -/
def Node.Holds (n : Node Label) : Prop :=
  ∃ items, n.items = .ok items ∧ Node.EachRegular items

theorem Node.Listed.holds {n : Node Label} (listed : n.Listed) (h : n.AllRegular) : n.Holds := by
  obtain ⟨items, listed⟩ := listed
  exact ⟨items, listed, h.items listed⟩

theorem Node.Listed.ofPlain {α : Type} {n : Node α} (h : n.plain.Listed) : n.Listed := by
  obtain ⟨items, listed⟩ := h
  cases n with
  | list items => exact ⟨items, rfl⟩
  | _ => cases listed

theorem Node.Regular.ofPlain {α : Type} {n : Node α} (h : n.plain.Regular) : n.Regular := by
  cases n with
  | source => exact ⟨h.1.ofPlain, h.2.ofPlain⟩
  | function => exact ⟨h.1.ofPlain, h.2.ofPlain⟩
  | conditional => exact ⟨h.1.ofPlain, h.2.ofPlain⟩
  | switch | case | loop | call | listLiteral => exact Node.Listed.ofPlain h
  | literal => exact h
  | _ => trivial

/-! ### Programs of texts -/

/-- A number or a character of a text is a value of this kind. -/
theorem Literal.Lexical.regular {value : Literal} (h : value.Lexical) : value.value.Regular := by
  cases value with
  | decimal d => exact h
  | character content =>
    obtain ⟨c, rfl⟩ := h
    exact ⟨_, rfl⟩
  | foreign => exact h.elim
  | _ => trivial

mutual
theorem Expr.Shaped.regular {W : Wording} (literals : ∀ l, W.literal l → l.value.Regular) :
    (e : Expr) → e.Shaped W → e.toNode.AllRegular
  | .literal value, h => literals value h
  | .group inner, h => ⟨trivial, Expr.Shaped.regular literals inner h⟩
  | .binary _ left right, ⟨_, _, _, first, second⟩ =>
    ⟨trivial, Expr.Shaped.regular literals left first, Expr.Shaped.regular literals right second⟩
  | .access _ none, _ => ⟨trivial, trivial⟩
  | .access _ (some offset), ⟨_, h⟩ => ⟨trivial, Expr.Shaped.regular literals offset h⟩
  | .call _ arguments, ⟨_, h⟩ =>
    ⟨⟨_, rfl⟩, trivial, Expr.AllShaped.regular literals arguments h⟩
  | .list elements, h => ⟨⟨_, rfl⟩, trivial, Expr.AllShaped.regular literals elements h⟩

theorem Expr.AllShaped.regular {W : Wording} (literals : ∀ l, W.literal l → l.value.Regular) :
    (es : List Expr) → Expr.AllShaped W es → Node.EachRegular (Expr.toNodes es)
  | [], _ => trivial
  | e :: rest, ⟨first, others⟩ =>
    ⟨Expr.Shaped.regular literals e first, Expr.AllShaped.regular literals rest others⟩
end

/-- What may be left out. -/
theorem Expr.regular_optional {W : Wording} (literals : ∀ l, W.literal l → l.value.Regular)
    {value : Option Expr} (h : ∀ e ∈ value, e.Shaped W) :
    (Expr.optionalNode value).AllRegular := by
  cases value with
  | none => trivial
  | some e => exact Expr.Shaped.regular literals e (h e rfl)

mutual
theorem Stmt.Shaped.regular {W : Wording} (literals : ∀ l, W.literal l → l.value.Regular) :
    (s : Stmt) → s.Shaped W → s.toNode.AllRegular
  | .expression e, h => ⟨trivial, Expr.Shaped.regular literals e h⟩
  | .declaration _ _ _, ⟨_, _, h⟩ => ⟨trivial, Expr.regular_optional literals h⟩
  | .assignment receiver value, ⟨first, second⟩ =>
    ⟨trivial, Expr.Shaped.regular literals receiver first,
      Expr.Shaped.regular literals value second⟩
  | .conditional condition thenBody elseBody, ⟨first, second, third⟩ =>
    ⟨⟨⟨_, rfl⟩, ⟨_, rfl⟩⟩, Expr.Shaped.regular literals condition first,
      ⟨trivial, Stmt.AllShaped.regular literals thenBody second⟩,
      ⟨trivial, Stmt.AllShaped.regular literals elseBody third⟩⟩
  | .switch condition cases, ⟨first, second⟩ =>
    ⟨⟨_, rfl⟩, Expr.Shaped.regular literals condition first, trivial,
      Case.AllShaped.regular literals cases second⟩
  | .loop condition body, ⟨first, second⟩ =>
    ⟨⟨_, rfl⟩, Expr.Shaped.regular literals condition first, trivial,
      Stmt.AllShaped.regular literals body second⟩
  | .ret value, h => ⟨trivial, Expr.Shaped.regular literals value h⟩

theorem Stmt.AllShaped.regular {W : Wording} (literals : ∀ l, W.literal l → l.value.Regular) :
    (ss : List Stmt) → Stmt.AllShaped W ss → Node.EachRegular (Stmt.toNodes ss)
  | [], _ => trivial
  | s :: rest, ⟨first, others⟩ =>
    ⟨Stmt.Shaped.regular literals s first, Stmt.AllShaped.regular literals rest others⟩

theorem Case.AllShaped.regular {W : Wording} (literals : ∀ l, W.literal l → l.value.Regular) :
    (cs : List Case) → Case.AllShaped W cs → Node.EachRegular (Case.toNodes cs)
  | .mk (some value) body :: rest, ⟨first, second, third⟩ =>
    ⟨⟨⟨_, rfl⟩, Expr.Shaped.regular literals value first, trivial,
      Stmt.AllShaped.regular literals body second⟩, Case.AllShaped.regular literals rest third⟩
  | .mk none body :: _, ⟨first, last⟩ => by
    subst last
    exact ⟨⟨⟨_, rfl⟩, trivial, trivial, Stmt.AllShaped.regular literals body first⟩, trivial⟩
end

theorem Node.eachRegular_map {β : Type} {f : β → Node Unit} {l : List β}
    (h : ∀ b ∈ l, (f b).AllRegular) : Node.EachRegular (l.map f) := by
  induction l with
  | nil => trivial
  | cons b l ih =>
    exact ⟨h b List.mem_cons_self, ih fun b' mem => h b' (List.mem_cons_of_mem _ mem)⟩

/-- The tree of a program that is parsed is of this kind. -/
theorem Program.regular_of_parse {text : String} {p : Program} (h : Program.parse text = .ok p) :
    p.toNode.AllRegular := by
  have shaped := Program.lexical_of_parse h
  have literals : ∀ l, Wording.lexical.literal l → l.value.Regular := fun _ => Literal.Lexical.regular
  refine ⟨⟨⟨_, rfl⟩, ⟨_, rfl⟩⟩, ⟨trivial, ?_⟩, trivial, ?_⟩
  · exact Node.eachRegular_map fun g mem =>
      ⟨trivial, Expr.regular_optional literals (shaped.globals g mem).value⟩
  · refine Node.eachRegular_map fun f mem => ?_
    exact ⟨⟨⟨_, rfl⟩, ⟨_, rfl⟩⟩, ⟨trivial, Node.eachRegular_map fun _ _ => trivial⟩, trivial,
      Stmt.AllShaped.regular literals f.body (shaped.functions f mem).body⟩

/-- Labels are nothing to it. -/
theorem Node.AllRegular.annotated {n : Node Unit} (h : n.AllRegular) (known : Annotations) :
    (n.annotated known).tree.AllRegular := by
  have plain : (n.annotated known).tree.plain = n := n.plain_withLabels _
  rw [← plain] at h
  exact Every.imp (fun m => Node.Regular.ofPlain) _ (Every.ofPlain _ h)

/-! ### Stores -/

/-- All values in variables and lists are of a kind. -/
structure Store.Each (V : Value → Prop) (s : Store) : Prop where
  vars : ∀ (n : Nat) (x : Variable), s.vars[n]? = some x → V x.value
  lists : ∀ (address : Nat) (items : Array Value), s.lists[address]? = some items →
    ∀ v ∈ items, V v

namespace Store.Each

variable {V : Value → Prop} {s : Store} {v : Value}

theorem add (h : s.Each V) (hv : V v) {env : Env} {key : Key} {name : Json} {type : Option Ty}
    {isMutable : Bool} {id : Option DeclId} :
    (s.add env key ⟨name, type, isMutable, v⟩ id).Each V where
  vars n x known := by
    have known : (s.vars.push ⟨name, type, isMutable, v⟩)[n]? = some x := known
    rw [Array.getElem?_push] at known
    split at known
    · cases known
      exact hv
    · exact h.vars n x known
  lists := h.lists

theorem setValue (h : s.Each V) (hv : V v) {n : Nat} : (s.setValue n v).Each V where
  vars i x known := by
    have known : (s.vars.modify n fun x => { x with value := v })[i]? = some x := known
    rw [Array.getElem?_modify] at known
    split at known
    · obtain ⟨y, _, rfl⟩ := Option.map_eq_some_iff.1 known
      exact hv
    · exact h.vars i x known
  lists := h.lists

theorem newList (h : s.Each V) {items : Array Value} (each : ∀ v ∈ items, V v) :
    (s.newList items).1.Each V where
  vars := h.vars
  lists address found known := by
    have known : (s.lists.push items)[address]? = some found := known
    rw [Array.getElem?_push] at known
    split at known
    · cases known
      exact each
    · exact h.lists address found known

theorem setElement (h : s.Each V) (hv : V v) {address index : Nat} :
    (s.setElement address index v).Each V where
  vars := h.vars
  lists i found known := by
    have known : (s.lists.modify address fun items => items.setIfInBounds index v)[i]? =
      some found := known
    rw [Array.getElem?_modify] at known
    split at known
    · obtain ⟨items, old, rfl⟩ := Option.map_eq_some_iff.1 known
      intro u hu
      rcases Array.mem_or_eq_of_mem_setIfInBounds hu with hu | rfl
      · exact h.lists i items old u hu
      · exact hv
    · exact h.lists i found known

theorem elements (h : s.Each V) (address : Nat) : ∀ v ∈ s.lists.elements address, V v := by
  intro v hv
  rw [Lists.elements] at hv
  cases known : s.lists[address]? with
  | none =>
    rw [known] at hv
    simp at hv
  | some items =>
    rw [known] at hv
    exact h.lists address items known v (Array.mem_toList_iff.1 hv)

/-- What an index reads is an element, or nothing where there is none. -/
theorem read (h : s.Each V) (nothing : V .nil) (address i : Nat) :
    V ((s.lists[address]?.getD #[])[i]?.getD .nil) := by
  cases known : (s.lists[address]?.getD #[])[i]? with
  | none => exact nothing
  | some u =>
    exact h.elements address u (Array.mem_toList_iff.2 (Array.mem_of_getElem? known))

end Store.Each

/-- The values of a store and the code of its functions are of this kind. -/
structure Store.Regular (s : Store) : Prop where
  values : s.Each Value.Regular
  code : ∀ (n : Nat) (f : Callable) (parameters : List (Declared Label)) (statements : Node Label)
    (home : Env), s.functions[n]? = some f → f.body = .code parameters statements home →
      statements.Holds

namespace Store.Regular

variable {s : Store} {v : Value}

theorem add (h : s.Regular) (hv : v.Regular) {env : Env} {key : Key} {name : Json}
    {type : Option Ty} {isMutable : Bool} {id : Option DeclId} :
    (s.add env key ⟨name, type, isMutable, v⟩ id).Regular :=
  ⟨h.values.add hv, h.code⟩

theorem openBlock (h : s.Regular) (env : Env) : (s.openBlock env).1.Regular :=
  ⟨⟨h.values.vars, h.values.lists⟩, h.code⟩

theorem defineFunction (h : s.Regular) {env : Env} {key : Key} {f : Callable} {s' : Store} {n : Nat}
    (coded : ∀ (parameters : List (Declared Label)) (statements : Node Label) (home : Env),
      f.body = .code parameters statements home → statements.Holds)
    (defined : s.defineFunction env key f = some (s', n)) : s'.Regular := by
  rw [Store.defineFunction] at defined
  simp only at defined
  split at defined
  · cases defined
  · cases defined
    refine ⟨⟨h.values.vars, h.values.lists⟩, fun i g parameters statements home known body => ?_⟩
    have known : (s.functions.push f)[i]? = some g := known
    rw [Array.getElem?_push] at known
    split at known
    · cases known
      exact coded parameters statements home body
    · exact h.code i g parameters statements home known body

end Store.Regular

/-- A computation fails in no raw way. -/
def Tame {α : Type} (x : Except Fault α) : Prop :=
  ∀ f, x = .error f → ¬ f.IsRaw

theorem Tame.ok {α : Type} {a : α} : Tame (.ok a) := by
  intro f h
  cases h

theorem Tame.bind {α β : Type} {x : Except Fault α} {k : α → Except Fault β} (hx : Tame x)
    (hk : ∀ a, Tame (k a)) : Tame (x >>= k) := by
  intro f h
  rcases Except.bind_eq_error.1 h with first | ⟨a, -, h⟩
  · exact hx f first
  · exact hk a f h

theorem Tame.map {α β : Type} {x : Except Fault α} {g : α → β} (hx : Tame x) : Tame (x.map g) :=
  fun f h => hx f (Except.map_eq_error.1 h)

theorem Tame.problem {α : Type} {cause : Cause} {subject : Option (Node Label)} :
    Tame (.error (.ofCause cause subject) : Except Fault α) := by
  intro f h
  cases h
  exact id

theorem tame_key (name : Json) : Tame name.key := by
  intro f h
  rw [Json.key] at h
  split at h
  · cases h
  · cases h
    rintro (raw | raw | raw) <;> cases raw

theorem tame_resolveType (name : Json) (subject : Node Label) : Tame (resolveType name subject) := by
  refine (tame_key name).bind fun key => ?_
  split
  · exact .ok
  · exact .problem

theorem tame_resolveOptional (name : Json) (subject : Node Label) :
    Tame (resolveOptional name subject) := by
  rw [resolveOptional]
  split
  · exact .ok
  · exact (tame_resolveType name subject).map

theorem Node.tame_headerTypes (function : Node Label) (parameters : List (Node Label)) :
    Tame (function.headerTypes parameters) := by
  induction parameters with
  | nil => exact .ok
  | cons p rest ih =>
    refine .bind ?_ fun d => (tame_resolveType _ _).bind fun t => ih.bind fun _ => .ok
    cases p.declared? with
    | none =>
      intro f h
      cases h
      rintro (raw | raw | raw) <;> cases raw
    | some d => exact .ok

theorem Node.Holds.tame_items {n : Node Label} (h : n.Holds) : Tame n.items := by
  obtain ⟨items, listed, -⟩ := h
  rw [listed]
  exact .ok

theorem Node.Holds.items {n : Node Label} {items : List (Node Label)} (h : n.Holds)
    (listed : n.items = .ok items) : Node.EachRegular items := by
  obtain ⟨items', listed', each⟩ := h
  cases listed'.symm.trans listed
  exact each

theorem World.tame_addFree (w : World) (env : Env) (name : Json) (binding : Option Binding)
    (isMutable : Bool) (v : Value) (subject : Option (Node Label)) :
    Tame (w.addFree env name binding isMutable v subject) := by
  refine (tame_key name).bind fun key => ?_
  split
  · exact .problem
  · exact .ok

theorem World.regular_addFree {w w' : World} {env : Env} {name : Json} {binding : Option Binding}
    {isMutable : Bool} {v : Value} {subject : Option (Node Label)} (h : w.store.Regular)
    (hv : v.Regular) (added : w.addFree env name binding isMutable v subject = .ok w') :
    w'.store.Regular := by
  obtain ⟨key, isName, -⟩ := Except.bind_eq_ok.1 added
  rw [World.addFree_eq isName] at added
  split at added
  · cases added
  · cases added
    exact h.add hv

/-- Parameters take such values, and no name among them fails in a raw way. -/
theorem World.bind_regular {w : World} (h : w.store.Regular) (env : Env) (found : Annotations)
    {arguments : List (Declared Label × Value)} (each : ∀ a ∈ arguments, a.2.Regular) :
    (w.bind env found arguments).1.store.Regular ∧
      ∀ f ∈ (w.bind env found arguments).2, ¬ f.IsRaw := by
  induction arguments generalizing w with
  | nil => exact ⟨h, by simp [World.bind]⟩
  | cons argument rest ih =>
    obtain ⟨p, v⟩ := argument
    rw [World.bind]
    cases isName : p.name.key with
    | error f =>
      refine ⟨h, fun f' mem => ?_⟩
      obtain rfl := Option.some.inj mem
      exact tame_key p.name f isName
    | ok key =>
      simp only
      split
      · refine ⟨h, fun f' mem => ?_⟩
        obtain rfl := Option.some.inj mem
        exact id
      · exact ih (h.add (each (p, v) List.mem_cons_self)) fun a ha =>
          each a (List.mem_cons_of_mem _ ha)

end PlcLang
