import PlcLang.Session
import PlcLang.Proofs.Running.Program

namespace PlcLang

/-- A tree and what the checker found out about it when it accepted it, in a check of its own. -/
def Annotated.Accepted (a : Annotated) : Prop :=
  ∃ (n : Node Unit) (known : Annotations) (check : Nat) (Γ : Context),
    a.tree = (n.annotated known).tree ∧ (n.annotated known).check check [] = (.ok Γ, a.found)

/-- A tree on its own, checked. -/
def Node.checked (n : Node Unit) : Annotated :=
  ⟨(n.annotated #[]).tree, ((n.annotated #[]).check 0 []).2⟩

/-- The checker accepts a tree on its own. -/
def Node.Accepted (n : Node Unit) : Prop :=
  ∃ Γ, ((n.annotated #[]).check 0 []).1 = .ok Γ

theorem Node.Accepted.checked {n : Node Unit} (h : n.Accepted) : n.checked.Accepted := by
  obtain ⟨Γ, accepted⟩ := h
  exact ⟨n, #[], 0, Γ, rfl, Prod.ext accepted rfl⟩

/-- A program whose loop takes `n` to 1 by way of a variable `m` of its own. -/
def Node.counting : Node Unit :=
  let var (name : String) : Node Unit := .access () (.string name) .absent
  let round : List (Node Unit) :=
    [.declaration () (.string "m") (.string "Integer")
      (.binary () .plus (var "n") (.literal () (.integer 1))),
      .assignment (var "n") (var "m")]
  let body : List (Node Unit) :=
    [.declaration () (.string "n") (.string "Integer") (.literal () (.integer 0)),
      .loop (.binary () .less (var "n") (.literal () (.integer 1))) (.list round),
      .ret (var "n")]
  .source (.list [])
    (.list [.function () (.string "main") (.list []) (.string "Integer") (.list body)])

theorem counting_accepted : Node.counting.Accepted :=
  ⟨_, rfl⟩

/-- The machine of a program on its own, about to run in a new block with the built-in functions. -/
def Machine.fresh : Machine :=
  let (s, env) := Session.start.place .fresh
  .initial env { store := s.store }

theorem CheckedFunctions.outer {D : Demands} {found : Annotations} {Γ Γ' : Context}
    {functions : List (Node Label)} (h : CheckedFunctions D found Γ functions Γ') :
    Γ'.outer = Γ.outer := by
  induction h with
  | nil => rfl
  | cons first _ ih =>
    obtain ⟨_, _, _, _, _, _, added, _⟩ := first
    rw [ih, (addFunction_eq added).2]

theorem CheckedProgram.outer {D : Demands} {found : Annotations} {Γ Γ' : Context}
    {tree : Node Label} (h : CheckedProgram D found tree Γ Γ') : Γ'.outer = [] := by
  cases h with
  | intro first others _ _ => exact others.outer.trans first.outer

/-- A course is that of a checked program on its own, whose tree runs with the annotations `ran`. -/
structure Course.Runs (c : Course) (a : Annotated) (ran : Annotations) (given : Settings) : Prop
    where
  found : c.found = a.found
  program : c.program = ⟨a.tree, ran⟩
  settings : c.settings = given
  root : c.root = 1

/-- An accepted program has a course, with its names resolved in either way. -/
theorem Annotated.Accepted.course {a : Annotated} (accepted : a.Accepted) (ran : Annotations)
    (byName : Bool) (settings : Settings) (D : Demands)
    (bindings : ∀ label, (ran.of label).binding =
      if byName then none else (a.found.of label).binding)
    (plain : byName = true → D.clear ∧ ¬ D.typed)
    (typed : D.typed → a.tree.Every (Node.Disciplined a.found))
    (clear : D.clear → a.tree.HidesNothing []) :
    ∃ c : Course, c.Runs a ran settings ∧ c.byName = byName ∧ c.demands = D := by
  obtain ⟨n, known, check, Γ, tree, checked⟩ := accepted
  rw [tree] at typed clear
  obtain ⟨Γ₀, program⟩ := checkedProgram_of_check checked typed clear
  rw [← tree] at program
  obtain ⟨final, outer⟩ := Γ
  obtain rfl : outer = [] := program.outer
  exact ⟨⟨a.found, ⟨a.tree, ran⟩, settings, byName, D, 1, final, ⟨Γ₀, program⟩, bindings, plain⟩,
    ⟨rfl, rfl, rfl, rfl⟩, rfl, rfl⟩

/-- What is there before a program starts: `print`, once for the session and once for it. -/
theorem fresh_store :
    Machine.fresh.world.store.blocks =
        #[{ functions := [((.text "print", 1), 0)] }, { functions := [((.text "print", 1), 1)] }] ∧
      Machine.fresh.world.store.vars = #[] ∧
      ∃ f, Machine.fresh.world.store.functions = #[f, f] ∧ f.body = .print :=
  ⟨rfl, rfl, ⟨.string "print", 1, [.any], some .nil, .print⟩, rfl, rfl⟩

/-- A program is about to start in its new block. -/
theorem Course.fresh (c : Course) (root : c.root = 1) : Stage c {} Machine.fresh := by
  obtain ⟨blocks, vars, f, functions, print⟩ := fresh_store
  have initial : Machine.fresh = .initial ⟨c.root, []⟩ Machine.fresh.world := by
    rw [root]
    rfl
  generalize Machine.fresh.world = w at *
  rw [initial]
  have here : w.store.block c.root = { functions := [((.text "print", 1), 1)] } := by
    rw [root, Store.block, blocks]
    rfl
  have prints : ∀ g ∈ w.store.functions, g.body = .print := by
    rw [functions]
    simp [print]
  have early : Early ⟨w.store.functions, (w.store.block c.root).functions⟩ .standard := by
    refine ⟨prints, fun key hk => ?_⟩
    rw [here]
    simp only [StaticBlock.standard, List.lookup_cons, List.lookup_nil] at hk ⊢
    split at hk <;> simp_all
  have offers : Offers c w.store .standard := by
    intro key g hg
    obtain ⟨rfl, rfl⟩ := StaticBlock.standard_lookup hg
    refine ⟨1, f, ?_, by rw [functions]; rfl, .print print rfl⟩
    rw [here]
    rfl
  refine .start early ⟨.bottom (.globals ?_ (fun _ _ hb => by cases hb) (fun key _ => ?_) offers),
    rfl, rfl, fun g hg => Or.inl (prints g hg), fun _ n x t hx => ?_⟩
  · rw [root, blocks]
    exact Nat.lt_succ_self 1
  · rw [here]
    rfl
  · rw [vars] at hx
    simp at hx

/-- All of a run of a program on its own is at a point of its course. -/
theorem Course.Runs.stage {c : Course} {a : Annotated} {ran : Annotations} {settings : Settings}
    {past : List Machine} {m : Machine} (h : c.Runs a ran settings)
    (run : Machine.fresh.Reaches settings ⟨a.tree, ran⟩ past m) :
    Stage c (Made.of a.found past) m := by
  rw [← h.settings, ← h.program] at run
  rw [← h.found]
  exact (c.fresh h.root).reaches run

end PlcLang
