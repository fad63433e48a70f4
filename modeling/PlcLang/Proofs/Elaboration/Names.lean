import Mathlib.Data.List.Forall2
import PlcLang.Proofs.Checking.Scope
import PlcLang.Proofs.Elaboration.Rules

namespace PlcLang

/-- The tables of a block have what is declared in it. -/
structure StaticBlock.Lists (B : StaticBlock) (block : List Declaration) : Prop where
  vars : ∀ key b, B.vars.lookup key = some b ↔ .ofVariable key b ∈ block
  functions : ∀ key arity f,
    B.functions.lookup (key, arity) = some f ↔ .ofFunction key f ∈ block ∧ f.arity = arity

/-- The checker knows what is declared around a point of a program. -/
def Context.Knows (C : Context) (Γ : Lexical) : Prop :=
  List.Forall₂ StaticBlock.Lists C.blocks Γ

namespace StaticBlock.Lists

variable {B : StaticBlock} {block : List Declaration} {key : Key}

theorem empty : StaticBlock.Lists {} [] :=
  ⟨fun _ _ => by simp, fun _ _ _ => by simp⟩

theorem standard : StaticBlock.standard.Lists
    [.ofFunction (.text "print") ⟨none, .string "print", [.any], .nil⟩] where
  vars _ _ := by simp [StaticBlock.standard]
  functions key arity f := by
    constructor
    · intro known
      obtain ⟨same, rfl⟩ := StaticBlock.standard_lookup known
      cases same
      exact ⟨List.mem_singleton_self _, rfl⟩
    · rintro ⟨declared, rfl⟩
      cases List.mem_singleton.1 declared
      rfl

theorem variable_free {b : Binding} (h : B.Lists block) :
    B.vars.lookup key = none ↔ ∀ other ∈ block, ¬ (Declaration.ofVariable key b).Clash other := by
  simp only [Option.eq_none_iff_forall_ne_some, ne_eq, h.vars]
  constructor
  · intro none other declared clash
    cases clash
    exact none _ declared
  · intro alone c declared
    exact alone _ declared .sameVariable

theorem function_free {f : Signature} (h : B.Lists block) :
    B.functions.lookup (key, f.arity) = none ↔
      ∀ other ∈ block, ¬ (Declaration.ofFunction key f).Clash other := by
  simp only [Option.eq_none_iff_forall_ne_some, ne_eq, h.functions]
  constructor
  · intro none other declared clash
    cases clash with
    | sameFunction same => exact none _ ⟨declared, same.symm⟩
  · rintro alone g ⟨declared, same⟩
    exact alone _ declared (.sameFunction same.symm)

theorem put {b : Binding} (h : B.Lists block) (free : B.vars.lookup key = none) :
    StaticBlock.Lists { B with vars := B.vars.put key b } (.ofVariable key b :: block) where
  vars other c := by
    rw [Table.lookup_put]
    split
    · rename_i same
      obtain rfl := beq_iff_eq.1 same
      have none := (h.vars other c).not.1 (by simp [free])
      simp [none, eq_comm]
    · rename_i different
      have different : other ≠ key := by simpa using different
      simp [h.vars, different]
  functions other arity f := by
    simp [h.functions]

theorem putFunction {f : Signature} (h : B.Lists block)
    (free : B.functions.lookup (key, f.arity) = none) :
    StaticBlock.Lists { B with functions := B.functions.put (key, f.arity) f }
      (.ofFunction key f :: block) where
  vars other b := by
    simp [h.vars]
  functions other arity g := by
    rw [Table.lookup_put]
    split
    · rename_i same
      obtain ⟨rfl, rfl⟩ := Prod.mk.inj (beq_iff_eq.1 same)
      have none := (h.functions other f.arity g).not.1 (by simp [free])
      constructor
      · intro h
        cases h
        exact ⟨List.mem_cons_self, rfl⟩
      · rintro ⟨declared, takes⟩
        cases declared with
        | head => rfl
        | tail _ declared => exact (none ⟨declared, takes⟩).elim
    · rename_i different
      rw [h.functions]
      constructor
      · rintro ⟨declared, takes⟩
        exact ⟨List.mem_cons_of_mem _ declared, takes⟩
      · rintro ⟨declared, takes⟩
        cases declared with
        | head => exact (different (by simp [takes])).elim
        | tail _ declared => exact ⟨declared, takes⟩

end StaticBlock.Lists

/-- A search through the blocks finds what the nearest of them has. -/
theorem findSome?_nearest {α : Type} {look : StaticBlock → Option α}
    {has : List Declaration → α → Prop} {blocks : List StaticBlock} {Γ : Lexical} {a : α}
    (h : List.Forall₂ (fun B block => ∀ c, look B = some c ↔ has block c) blocks Γ) :
    blocks.findSome? look = some a ↔ Γ.Nearest has a := by
  induction h with
  | nil =>
    constructor
    · intro known
      cases known
    · intro found
      cases found
  | cons here _ ih =>
    rw [List.findSome?_cons]
    split
    · rename_i c known
      constructor
      · intro same
        cases same
        exact .here ((here a).1 known)
      · intro found
        cases found with
        | here other => rw [← known, (here a).2 other]
        | outside none => exact (none c ((here c).1 known)).elim
    · rename_i free
      have none (c : α) := (here c).not.1 (by simp [free])
      rw [ih]
      constructor
      · exact .outside none
      · intro found
        cases found with
        | here this => exact (none a this).elim
        | outside _ found => exact found

namespace Context.Knows

variable {C C' : Context} {Γ Γ' : Lexical} {key : Key} {b : Binding} {f : Signature}

theorem standard : (Context.mk .standard []).Knows .standard :=
  .cons .standard .nil

theorem child (h : C.Knows Γ) : C.child.Knows ([] :: Γ) :=
  .cons .empty h

theorem finds_iff (h : C.Knows Γ) : C.findVariable key = some b ↔ Γ.Finds key b :=
  findSome?_nearest (h.imp fun _ _ lists => lists.vars key)

theorem findsFunction_iff {arity : Nat} (h : C.Knows Γ) :
    C.findFunction key arity = some f ↔ Γ.FindsFunction key arity f :=
  findSome?_nearest (h.imp fun _ _ lists => lists.functions key arity)

theorem finds_unique {c : Binding} (h : C.Knows Γ) (found : Γ.Finds key b)
    (other : Γ.Finds key c) : b = c :=
  Option.some.inj ((h.finds_iff.2 found).symm.trans (h.finds_iff.2 other))

theorem findsFunction_unique {arity : Nat} {g : Signature} (h : C.Knows Γ)
    (found : Γ.FindsFunction key arity f) (other : Γ.FindsFunction key arity g) : f = g :=
  Option.some.inj ((h.findsFunction_iff.2 found).symm.trans (h.findsFunction_iff.2 other))

/-- What the checker adds is what the rules declare. -/
theorem declares (h : C.Knows Γ) (added : C.addVariable key b = some C') :
    ∃ Γ', Γ.Declares (.ofVariable key b) Γ' ∧ C'.Knows Γ' := by
  obtain ⟨free, rfl⟩ := addVariable_eq added
  cases h with
  | cons here outer => exact ⟨_, .intro (here.variable_free.1 free), .cons (here.put free) outer⟩

theorem declaresFunction (h : C.Knows Γ) (added : C.addFunction key f = some C') :
    ∃ Γ', Γ.Declares (.ofFunction key f) Γ' ∧ C'.Knows Γ' := by
  obtain ⟨free, rfl⟩ := addFunction_eq added
  cases h with
  | cons here outer =>
    exact ⟨_, .intro (here.function_free.1 free), .cons (here.putFunction free) outer⟩

theorem adds (h : C.Knows Γ) (declares : Γ.Declares (.ofVariable key b) Γ') :
    ∃ C', C.addVariable key b = some C' ∧ C'.Knows Γ' := by
  cases declares with
  | intro alone =>
    cases h with
    | cons here outer =>
      have free := here.variable_free.2 alone
      exact ⟨_, if_neg (by simp [Table.has, free]), .cons (here.put free) outer⟩

theorem addsFunction (h : C.Knows Γ) (declares : Γ.Declares (.ofFunction key f) Γ') :
    ∃ C', C.addFunction key f = some C' ∧ C'.Knows Γ' := by
  cases declares with
  | intro alone =>
    cases h with
    | cons here outer =>
      have free := here.function_free.2 alone
      exact ⟨_, if_neg (by simp [Table.has, free]), .cons (here.putFunction free) outer⟩

end Context.Knows

end PlcLang
