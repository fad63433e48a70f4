import PlcLang.Proofs.Chaining.Calls
import PlcLang.Proofs.Chaining.Ground

namespace PlcLang

/-- A program that was checked behind others and is about to run: the number of its check, its tree,
the block it runs in, the names known at its end, what was found of all nodes so far, and the
store. -/
structure Link where
  number : Nat
  tree : Node Label
  env : Env
  names : Context
  found : Annotations
  store : Store

namespace Link

def program (L : Link) : Annotated :=
  ⟨L.tree, L.found⟩

/-- The machine that runs the program. -/
def machine (L : Link) : Machine :=
  .initial L.env { store := L.store }

/-- A node is one of the functions of the program. -/
def Has (L : Link) (f : Node Label) : Prop :=
  ∃ globals functions, L.tree = .source globals (.list functions) ∧ f ∈ functions

/-- What is called is what a function of the program becomes in its block, and what the checker
knows of it was made for that function. -/
inductive Realizes (L : Link) : Callable → Signature → Prop where
  | intro {label : Label} {name returnTypeName : Json} {parameters : List (Node Label)}
      {statements : Node Label} {header : List (Declared Label × Ty)} {returns : Option Ty}
      (ours : L.Has (.function label name (.list parameters) returnTypeName statements))
      (headed : (Node.function label name (.list parameters) returnTypeName
        statements).headerTypes parameters = .ok header)
      (returning : resolveOptional returnTypeName (.function label name (.list parameters)
        returnTypeName statements) = .ok returns) :
      Realizes L ⟨name, header.length, header.map (·.2), returns,
          .code (header.map (·.1)) statements L.env⟩
        ⟨some ⟨L.number, label⟩, name, header.map (·.2), returns.getD .nil⟩

/-- A program has a function of its own under a name that the programs before it have another
for. -/
structure Overrides (L : Link) (key : Key) (arity : Nat) (own outer : Signature) : Prop where
  inside : L.names.inner.functions.lookup (key, arity) = some own
  outside : L.names.outer.findSome? (·.functions.lookup (key, arity)) = some outer
  check : own.id.map (·.check) = some L.number

/-- A call in a function of the program was checked against a function `b`. At the end of the
program the name stands for that, or for a function of the program itself. -/
def Resolved (L : Link) (found : Annotations) : Node Label → Prop
  | .call label name arguments =>
    label ∈ L.tree.labels ∧ ∃ items key b, arguments = .list items ∧ name.key? = some key ∧
      (found.of label).signature = some b ∧
      (L.names.findFunction key items.length = some b ∨
        ∃ g, L.names.findFunction key items.length = some g ∧ L.Overrides key items.length g b)
  | _ => True

end Link

/-- What is called is the function, built in or of one of these programs, that was made known to the
checker. -/
inductive Realizes (links : List Link) : Callable → Signature → Prop where
  | print : Realizes links ⟨.string "print", 1, [.any], some .nil, .print⟩
      ⟨none, .string "print", [.any], .nil⟩
  | code {L : Link} {f : Callable} {g : Signature} (mem : L ∈ links) (realizes : L.Realizes f g) :
      Realizes links f g

theorem Realizes.mono {links links' : List Link} {f : Callable} {g : Signature}
    (h : Realizes links f g) (sub : links ⊆ links') : Realizes links' f g := by
  cases h with
  | print => exact .print
  | code mem realizes => exact .code (sub mem) realizes

/-- A function whose declaration is known is one of a program, in the block of that. -/
theorem Realizes.home {links : List Link} {f : Callable} {g : Signature} {id : DeclId}
    (h : Realizes links f g) (known : g.id = some id) :
    ∃ L ∈ links, id.check = L.number ∧
      ∃ parameters statements, f.body = .code parameters statements L.env := by
  cases h with
  | print => cases known
  | code mem realizes =>
    obtain ⟨_, _, _⟩ := realizes
    cases known
    exact ⟨_, mem, rfl, _, _, rfl⟩

/-- The call with a label, of a name with so many arguments, is one of a function with a number: it
was checked against that, or its program overrides what it was checked against. -/
def Agrees (links : List Link) (found : Annotations) (all : Array Callable) (label : Label)
    (key : Key) (arity : Nat) (n : Nat) : Prop :=
  ∃ L ∈ links, label ∈ L.tree.labels ∧ ∃ b f, (found.of label).signature = some b ∧
    all[n]? = some f ∧ (Realizes links f b ∨
      ∃ g, L.Overrides key arity g b ∧ Realizes links f g)

/-- Whatever a way to find functions finds, a store has in a block. -/
def Store.Offers (s : Store) (links : List Link) (env : Env)
    (find : Key → Nat → Option Signature) : Prop :=
  ∀ key arity g, find key arity = some g → ∃ n f, s.findFunction env key arity = some n ∧
    s.functions[n]? = some f ∧ Realizes links f g

/-- Code of a program among these stands in the block of that. -/
def Callable.Placed (links : List Link) (found : Annotations) (f : Callable) : Prop :=
  ∀ parameters statements home, f.body = .code parameters statements home →
    ∃ L ∈ links, home = L.env ∧ statements.Every (L.Resolved found)

/-- A store has all functions of these programs, and no others but built-in ones. -/
structure Store.Settled (s : Store) (links : List Link) (found : Annotations) : Prop where
  placed : ∀ (n : Nat) (f : Callable), s.functions[n]? = some f → f.Placed links found
  offers : ∀ L ∈ links, s.Offers links L.env L.names.findFunction
  room : ∀ L ∈ links, ∀ b ∈ L.env.chain, b < s.blocks.size

/-- The functions of a store, with the calls that its programs may make. -/
def Store.ground (s : Store) (links : List Link) (found : Annotations) : Ground :=
  ⟨s.functions, fun n => (s.block n).functions, s.blocks.size, Agrees links found s.functions⟩

section

variable {s s' : Store} {links links' : List Link} {found found' : Annotations} {env : Env}
  {find : Key → Nat → Option Signature} {L : Link} {n : Node Label}

theorem Store.on_ground : s.On (s.ground links found) :=
  ⟨rfl, fun _ => rfl, Nat.le_refl _⟩

theorem Store.Offers.moved (h : s.Offers links env find) (on : s'.On (s.ground links' found)) :
    s'.Offers links env find := by
  intro key arity g known
  obtain ⟨n, f, here, there, realizes⟩ := h key arity g known
  refine ⟨n, f, ?_, ?_, realizes⟩
  · have before : s.On (s.ground links' found) := Store.on_ground
    rw [on.findFunction, ← before.findFunction, here]
  · rw [on.functions]
    exact there

theorem Store.Offers.mono (h : s.Offers links env find) (sub : links ⊆ links') :
    s.Offers links' env find := by
  intro key arity g known
  obtain ⟨n, f, here, there, realizes⟩ := h key arity g known
  exact ⟨n, f, here, there, realizes.mono sub⟩

theorem Store.Settled.moved (h : s.Settled links found) (on : s'.On (s.ground links' found')) :
    s'.Settled links found where
  placed n f known := by
    rw [on.functions] at known
    exact h.placed n f known
  offers L mem := (h.offers L mem).moved on
  room L mem b hb := Nat.lt_of_lt_of_le (h.room L mem b hb) on.room

/-- A call that was checked against what a store offers answers. -/
theorem Node.Traced.answers (h : n.Traced find found L.tree.labels) (mem : L ∈ links)
    (offers : s.Offers links env find) : n.Answers (s.ground links found) env := by
  cases n with
  | call label name arguments =>
    obtain ⟨ours, items, key, b, given, isName, known, bound⟩ := h
    obtain ⟨i, f, here, there, realizes⟩ := offers key items.length b known
    have agrees : Agrees links found s.functions label key items.length i :=
      ⟨L, mem, ours, b, f, bound, there, Or.inl realizes⟩
    exact ⟨items, key, i, given, isName, here, agrees⟩
  | _ => exact trivial

/-- A call in a program answers where all functions of that are there. -/
theorem Link.Resolved.answers (h : L.Resolved found n) (mem : L ∈ links)
    (offers : s.Offers links L.env L.names.findFunction) :
    n.Answers (s.ground links found) L.env := by
  cases n with
  | call label name arguments =>
    obtain ⟨ours, items, key, b, given, isName, bound, known | ⟨g, known, overrides⟩⟩ := h
    · obtain ⟨i, f, here, there, realizes⟩ := offers key items.length b known
      have agrees : Agrees links found s.functions label key items.length i :=
        ⟨L, mem, ours, b, f, bound, there, Or.inl realizes⟩
      exact ⟨items, key, i, given, isName, here, agrees⟩
    · obtain ⟨i, f, here, there, realizes⟩ := offers key items.length g known
      have agrees : Agrees links found s.functions label key items.length i :=
        ⟨L, mem, ours, b, f, bound, there, Or.inr ⟨g, overrides, realizes⟩⟩
      exact ⟨items, key, i, given, isName, here, agrees⟩
  | _ => exact trivial

/-- Once all functions of some programs are there, their code answers. -/
theorem Store.Settled.coded (h : s.Settled links found) (sub : links ⊆ links') :
    (s.ground links' found).Coded := by
  intro n f parameters statements home known body
  obtain ⟨L, mem, rfl, resolved⟩ := h.placed n f known parameters statements home body
  exact Node.Every.imp (fun _ call => call.answers (sub mem) ((h.offers L mem).mono sub)) statements
    resolved

end

section

variable {number : Nat} {found : Annotations} {ls : List Label} {Γ Γ' : Context}
  {functions : List (Node Label)}

theorem Defines.outer (h : Defines number found ls Γ functions Γ') : Γ'.outer = Γ.outer := by
  induction h with
  | nil => rfl
  | cons _ _ _ added _ _ ih =>
    obtain ⟨_, rfl⟩ := addFunction_eq added
    exact ih

theorem Defines.regular (h : Defines number found ls Γ functions Γ') (regular : Γ.Regular) :
    Γ'.Regular := by
  induction h with
  | nil => exact regular
  | cons _ _ _ added _ _ ih => exact ih (regular.addFunction added)

/-- A function once known stays known, and what comes to be known is of this check. -/
theorem Defines.lookup (h : Defines number found ls Γ functions Γ') (key : Key × Nat) :
    (∀ g, Γ.inner.functions.lookup key = some g → Γ'.inner.functions.lookup key = some g) ∧
      ∀ g, Γ'.inner.functions.lookup key = some g → Γ.inner.functions.lookup key = none →
        g.id.map (·.check) = some number := by
  induction h with
  | nil => exact ⟨fun _ h => h, fun g known unknown => by rw [unknown] at known; cases known⟩
  | cons _ _ _ added _ _ ih =>
    obtain ⟨free, rfl⟩ := addFunction_eq added
    obtain ⟨kept, own⟩ := ih
    simp only [Table.lookup_put] at kept own
    refine ⟨fun g known => kept g ?_, fun g known unknown => ?_⟩
    · split
      · rename_i same
        rw [beq_iff_eq.1 same, free] at known
        cases known
      · exact known
    · split at own
      · rename_i here
        simp only [here, ↓reduceIte] at kept
        rw [kept _ rfl] at known
        cases known
        rfl
      · exact own g known unknown

/-- What the code of a function was checked against is what its names stand for at the end of the
program, unless the program overrides it. -/
theorem resolved_of_traced {L : Link} {n : Node Label}
    (h : Defines L.number found ls Γ functions L.names)
    (traced : n.Every (Node.Traced Γ.findFunction found L.tree.labels)) :
    n.Every (L.Resolved found) := by
  refine Node.Every.imp (fun m traced => ?_) n traced
  cases m with
  | call label name arguments =>
    obtain ⟨ours, items, key, b, given, isName, known, bound⟩ := traced
    refine ⟨ours, items, key, b, given, isName, bound, ?_⟩
    obtain ⟨kept, own⟩ := h.lookup (key, items.length)
    simp only [Context.findFunction, Context.blocks, List.findSome?_cons, h.outer] at known ⊢
    cases inside : Γ.inner.functions.lookup (key, items.length) with
    | some g =>
      rw [inside] at known
      cases known
      rw [kept b inside]
      exact Or.inl rfl
    | none =>
      rw [inside] at known
      cases final : L.names.inner.functions.lookup (key, items.length) with
      | none => exact Or.inl known
      | some g =>
        refine Or.inr ⟨g, rfl, final, ?_, own g final inside⟩
        rw [h.outer]
        exact known
  | _ => exact trivial

end

end PlcLang
