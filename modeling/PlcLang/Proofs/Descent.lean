import PlcLang.Proofs.Descent.Work
import PlcLang.Tree.Program

namespace PlcLang

/-- The numbers of the functions of the program whose calls are open, the latest first. -/
def Machine.active (m : Machine) : List Nat :=
  m.frames.filterMap Frame.activation?

/-- A number is that of the function with an index among those of the program: two are built in. -/
def Machine.Numbers (m : Machine) (a : Annotated) (n i : Nat) : Prop :=
  n = i + 2 ∧ ∃ f g, a.tree.functions[i]? = some f ∧ m.world.store.functions[n]? = some g ∧
    g.Codes f

/-- The calls of a program go down in the order of its functions. -/
structure Machine.Descends (a : Annotated) (m : Machine) : Prop where
  /-- Open calls are of functions of the program, and never of one behind its caller. -/
  numbered : ∀ n ∈ m.active, ∃ i, m.Numbers a n i
  sorted : m.active.Pairwise (· ≤ ·)
  count : m.calls = m.active.length
  /-- What is called is `print`, or a function of the program not behind any that is open. -/
  called : ∀ n arguments, m.control = .call n arguments →
    (∃ g, m.world.store.functions[n]? = some g ∧ g.body = .print) ∨
      (∃ i, m.Numbers a n i) ∧ ∀ k ∈ m.active, n ≤ k
  /-- Where a global gets its value, `print` is all that is called. -/
  initial : ∀ g rest functions env, .global g rest functions env ∈ m.frames → m.active = [] ∧
    ∀ n arguments, m.control = .call n arguments →
      ∃ f, m.world.store.functions[n]? = some f ∧ f.body = .print

namespace Ranking

variable {R : Ranking} {a : Annotated} {m m' : Machine} {settings : Settings}
  {past : List Machine}

/-- The functions of an accepted program are called in order. -/
structure Ranks (R : Ranking) (a : Annotated) : Prop where
  accepted : a.Accepted
  tree : a.tree = R.tree
  sorted : R.Sorted

theorem Ranks.reaches (h : R.Ranks a) (run : Machine.fresh.Reaches settings a past m) :
    R.Point m := by
  induction run with
  | start => exact .start Store.Numbers.fresh
  | step before next ih =>
    obtain ⟨tree, found⟩ := a
    obtain rfl : tree = R.tree := h.tree
    exact ih.step h.sorted (h.accepted.rooted before) next

/-- The functions of a store are those of the program, in order. -/
theorem numbers_of_defined {defined : List (Node Label)} {i : Nat}
    (tree : a.tree = R.tree) (part : defined <+: R.functions)
    (numbers : m.world.store.Numbers defined) (inside : i < defined.length) :
    m.Numbers a (i + 2) i := by
  have here : defined[i]? = some defined[i] := List.getElem?_eq_getElem inside
  obtain ⟨g, known, codes⟩ := numbers.code i _ here
  exact ⟨rfl, _, g, tree ▸ getElem?_of_part part here, known, codes⟩

/-- One of the first functions that a store has is `print`. -/
theorem print_of_early {defined : List (Node Label)} {s : Store} {n : Nat}
    (numbers : s.Numbers defined) (early : n < 2) :
    ∃ g, s.functions[n]? = some g ∧ g.body = .print := by
  have inside : n < s.functions.size := by
    rw [numbers.size]
    omega
  have known : s.functions[n]? = some s.functions[n] := Array.getElem?_eq_getElem inside
  exact ⟨_, known, numbers.print n _ early known⟩

theorem Point.descends (h : R.Point m) (tree : a.tree = R.tree) :
    m.Descends a := by
  have idle {c : Control} {w : World} (quiet : ∀ n arguments, c ≠ .call n arguments) :
      Machine.Descends a ⟨c, [], 0, w⟩ :=
    ⟨fun _ mem => (List.not_mem_nil mem).elim, .nil, rfl,
      fun n arguments same => (quiet n arguments same).elim,
      fun _ _ _ _ mem => (List.not_mem_nil mem).elim⟩
  cases h with
  | start | globals | functions | main => exact idle fun _ _ same => by cases same
  | @running defined c K n r w part numbers admits waits calls =>
    refine ⟨fun n mem => ?_, waits.sorted, calls, fun n arguments same => ?_,
      fun g rest functions env mem => ?_⟩
    · obtain ⟨i, rfl, inside⟩ := waits.active_defined n mem
      exact ⟨i, numbers_of_defined tree part numbers inside⟩
    · obtain rfl : c = .call n arguments := same
      have lt : n < r + 2 := admits
      rcases Nat.lt_or_ge n 2 with early | user
      · exact Or.inl (print_of_early numbers early)
      · obtain ⟨i, rfl⟩ := Nat.exists_eq_add_of_le' user
        have le := waits.le_defined
        refine Or.inr ⟨⟨i, numbers_of_defined tree part numbers (by omega)⟩, ?_⟩
        intro k mem
        have below := waits.lt_active k mem
        omega
    · obtain ⟨rfl, none⟩ := waits.global_eq mem
      refine ⟨none, fun n arguments same => ?_⟩
      obtain rfl : c = .call n arguments := same
      have early : n < 0 + 2 := admits
      exact print_of_early numbers early

/-- A straight program is at its end within the steps that are left. -/
theorem Ranks.ends {steps : Nat} (h : R.Ranks a) (straight : R.straight = true)
    (run : Machine.fresh.Reaches settings a past m)
    (enough : R.work m.control m.frames < steps) :
    ∃ w result, Machine.run settings a steps m = some (w, result) := by
  induction steps generalizing past m with
  | zero => exact (Nat.not_lt_zero _ enough).elim
  | succ steps ih =>
    rw [Machine.run]
    split
    · rename_i m' next
      have further := run.step next
      have less : R.work m'.control m'.frames < R.work m.control m.frames := by
        have point := h.reaches run
        have point' := h.reaches further
        obtain ⟨tree, found⟩ := a
        obtain rfl : tree = R.tree := h.tree
        exact point.work_lt straight point' next
      exact ih further (by omega)
    · exact ⟨_, _, rfl⟩

/-- In a straight program no more calls are open than there are functions. -/
theorem Point.active_le (h : R.Point m) (straight : R.straight = true) :
    m.active.length ≤ R.functions.length := by
  cases h with
  | start | globals | functions | main => exact Nat.zero_le _
  | running part _ _ waits _ =>
    have le := waits.active_le straight
    exact Nat.le_trans (Nat.le_of_add_right_le le) part.length_le

end Ranking

/-- The functions of an accepted program are called in order. -/
theorem Annotated.Accepted.ranks {a : Annotated} (accepted : a.Accepted) :
    ∃ R : Ranking, R.Ranks a := by
  obtain ⟨globals, functions, tree, initial, code⟩ := asksBelow_of_accepted accepted
  refine ⟨⟨globals, functions, false⟩, accepted, tree, ?_, fun i f here => ?_⟩
  · exact Node.EveryOne.imp (fun n asks => ⟨asks, fun same => by cases same⟩) globals initial
  · obtain ⟨label, name, parameters, returnTypeName, statements, same, asks⟩ := code i f here
    refine ⟨label, name, parameters, returnTypeName, statements, same, ?_⟩
    exact Node.Every.imp (fun n asks => ⟨asks, fun same => by cases same⟩) statements asks

/-- A function of an accepted straight program calls only those before it. -/
theorem Annotated.Accepted.ranks_straight {a : Annotated} (accepted : a.Accepted)
    (straight : a.tree.Straight) : ∃ R : Ranking, R.Ranks a ∧ R.straight = true := by
  obtain ⟨globals, functions, tree, initial, code⟩ := asksBelow_of_accepted accepted
  obtain ⟨loopless, indirect⟩ := straight
  rw [tree] at loopless indirect
  obtain ⟨-, ⟨-, loopless⟩, -, loopless'⟩ := loopless
  have fits {n : Node Label} {r : Nat} (h : n.AsksBelow functions r ∧ n.isLoop = false) :
      Ranking.Fits ⟨globals, functions, true⟩ r n := ⟨h.1, fun _ => h.2⟩
  refine ⟨⟨globals, functions, true⟩, ⟨accepted, tree, ?_, fun i f here => ?_⟩, rfl⟩
  · exact Node.EveryOne.imp (fun n h => fits h) globals (Node.EveryOne.and globals initial loopless)
  · obtain ⟨label, name, parameters, returnTypeName, statements, same, asks⟩ := code i f here
    have mem : f ∈ functions := List.mem_of_getElem? here
    have free := loopless'.mem mem
    have others := indirect f mem
    subst same
    refine ⟨label, name, parameters, returnTypeName, statements, rfl, ?_⟩
    refine Node.Every.imp (fun n h => fits ⟨fun sign j g asked there offers => ?_, h.2.2⟩) statements
      (Node.Every.and statements asks (Node.Every.and statements others.2.2 free.2.2))
    have le := h.1 sign j g asked there offers
    refine Nat.lt_of_le_of_ne (Nat.le_of_lt_succ le) fun same => ?_
    subst same
    rw [here] at there
    cases there
    rcases h.2.1 with none | other
    · rw [none] at asked
      cases asked
    · exact other (asked.trans offers.symm)

/-- At every point of every run of an accepted program on its own, its calls go down in the order of
its functions: globals call only `print`, and a function only itself or functions before it. If it
has no loop, and no function calls itself directly, then there is a number of steps in which every
run ends, with a value or a fault, and no more calls are open at once than it has functions. -/
theorem calls_descend {a : Annotated} (accepted : a.Accepted) :
    (∀ (settings : Settings) (past : List Machine) (m : Machine),
      Machine.fresh.Reaches settings a past m → m.Descends a) ∧
    (a.tree.Straight → ∃ steps, ∀ settings : Settings,
      (∃ w result, Machine.run settings a steps Machine.fresh = some (w, result)) ∧
      ∀ (past : List Machine) (m : Machine), Machine.fresh.Reaches settings a past m →
        m.active.length ≤ a.tree.functions.length) := by
  constructor
  · intro settings past m run
    obtain ⟨R, ranks⟩ := accepted.ranks
    exact (ranks.reaches run).descends ranks.tree
  · intro straight
    obtain ⟨R, ranks, same⟩ := accepted.ranks_straight straight
    refine ⟨R.work Machine.fresh.control Machine.fresh.frames + 1, fun settings => ⟨?_, ?_⟩⟩
    · exact ranks.ends same .start (Nat.lt_succ_self _)
    · intro past m run
      rw [ranks.tree]
      exact (ranks.reaches run).active_le same

/-- A program whose `main` calls a function that stands before it, and whose global is what `print`
gives. -/
def Program.layered : Program :=
  ⟨[⟨"g", false, "Nil", some (.call "print" [.literal (.integer 1)])⟩],
    [⟨"f", [⟨"n", "Integer"⟩], some "Integer",
      [.ret (.binary .plus (.access "n" none) (.literal (.integer 1)))]⟩,
    ⟨"main", [], some "Integer", [.ret (.call "f" [.literal (.integer 2)])]⟩]⟩

theorem layered_accepted : Program.layered.toNode.Accepted :=
  ⟨_, rfl⟩

/-- The function before `main` runs inside it, and the run ends. -/
theorem calls_descend_layered :
    Program.layered.toNode.checked.Accepted ∧ Program.layered.toNode.checked.tree.Straight ∧
      (∃ (past : List Machine) (m : Machine),
        Machine.fresh.Reaches {} Program.layered.toNode.checked past m ∧
          past.length = 20 ∧ m.active = [2, 3] ∧ m.Descends Program.layered.toNode.checked) ∧
      ∃ steps w result,
        Machine.run {} Program.layered.toNode.checked steps Machine.fresh = some (w, result) := by
  have accepted := layered_accepted.checked
  have straight : Program.layered.toNode.checked.tree.Straight := by
    refine ⟨?_, ?_⟩
    · repeat' constructor
    · refine List.forall_mem_cons.2 ⟨?_, List.forall_mem_cons.2 ⟨?_, fun _ mem => by cases mem⟩⟩
      · repeat' (first | decide | constructor)
      · repeat' (first | decide | constructor)
  have run : Machine.fresh.Reaches {} Program.layered.toNode.checked [] Machine.fresh := .start
  iterate 20 replace run := run.step rfl
  obtain ⟨descends, ends⟩ := calls_descend accepted
  obtain ⟨steps, ends⟩ := ends straight
  obtain ⟨w, result, ends⟩ := (ends {}).1
  exact ⟨accepted, straight, ⟨_, _, run, rfl, rfl, descends {} _ _ run⟩, steps, w, result, ends⟩

end PlcLang
