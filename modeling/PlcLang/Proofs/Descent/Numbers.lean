import PlcLang.Proofs.Descent.Moves
import PlcLang.Proofs.Descent.Order
import PlcLang.Proofs.Running.Points

namespace PlcLang

/-- What is called is what a function of a program becomes in the block of the program. -/
def Callable.Codes (g : Callable) (f : Node Label) : Prop :=
  ∃ label name parameters returnTypeName statements declared,
    f = .function label name (.list parameters) returnTypeName statements ∧ g.name = name ∧
      g.arity = parameters.length ∧ g.body = .code declared statements ⟨1, []⟩

/-- The functions of a store are two built-in ones, of the session and of the program, and behind
them those that the program has defined so far, one after another. -/
structure Store.Numbers (defined : List (Node Label)) (s : Store) : Prop where
  size : s.functions.size = defined.length + 2
  print : ∀ (n : Nat) (g : Callable), n < 2 → s.functions[n]? = some g → g.body = .print
  code : ∀ (i : Nat) (f : Node Label), defined[i]? = some f →
    ∃ g, s.functions[i + 2]? = some g ∧ g.Codes f
  names : ∀ (sign : Key × Nat) (n : Nat), (s.block 1).functions.lookup sign = some n →
    n < 2 ∨ ∃ i f, n = i + 2 ∧ defined[i]? = some f ∧ f.offers? = some sign

namespace Store.Numbers

variable {defined : List (Node Label)} {s s' : Store} {f : Node Label}

/-- Only the functions of a store count. -/
theorem moved (h : s.Numbers defined) (on : s'.On s.ready) : s'.Numbers defined where
  size := (congrArg Array.size on.functions).trans h.size
  print n g early known := by
    rw [on.functions] at known
    exact h.print n g early known
  code i f here := by
    rw [on.functions]
    exact h.code i f here
  names sign n known := by
    rw [on.names] at known
    exact h.names sign n known

/-- The next function of the program gets the next number. -/
theorem takes (h : s.Numbers defined) (room : 1 < s.blocks.size)
    (takes : s.Takes ⟨1, []⟩ f s') : s'.Numbers (defined ++ [f]) := by
  obtain ⟨label, name, parameters, _, _, header, _, key, n, rfl, headed, isName, added⟩ := takes
  obtain ⟨rfl, functions, -, names⟩ := Store.of_defineFunction room added
  have arity := headerTypes_length headed
  refine ⟨?_, fun n g early known => ?_, fun i f here => ?_, fun sign n known => ?_⟩
  · rw [functions, Array.size_push, h.size, List.length_append, List.length_singleton]
  · have old : n ≠ s.functions.size := by
      rw [h.size]
      omega
    rw [functions, Array.getElem?_push, if_neg old] at known
    exact h.print n g early known
  · rw [functions, Array.getElem?_push, h.size]
    rw [List.getElem?_append] at here
    split at here
    · rename_i old
      rw [if_neg (by omega)]
      exact h.code i f here
    · have last : i = defined.length := by
        have inside := (List.getElem?_eq_some_iff.1 here).1
        simp only [List.length_singleton] at inside
        omega
      subst last
      simp only [Nat.sub_self, List.getElem?_cons_zero, Option.some.injEq] at here
      subst here
      rw [if_pos rfl]
      exact ⟨_, rfl, _, _, _, _, _, _, rfl, rfl, arity, rfl⟩
  · rw [names, if_pos rfl, Table.lookup_put] at known
    split at known
    · rename_i same
      cases known
      refine Or.inr ⟨defined.length, _, h.size, List.getElem?_concat_length, ?_⟩
      rw [beq_iff_eq.1 same, Node.offers?, isName, ← arity]
      rfl
    · rcases h.names sign n known with early | ⟨i, f, rfl, here, offers⟩
      · exact Or.inl early
      · refine Or.inr ⟨i, f, rfl, ?_, offers⟩
        have inside := (List.getElem?_eq_some_iff.1 here).1
        rw [List.getElem?_append_left inside, here]

/-- What is called and has code is a function that the program has defined. -/
theorem defined_of_code (h : s.Numbers defined) {k : Nat} {g : Callable}
    {declared : List (Declared Label)} {statements : Node Label} {home : Env}
    (known : s.functions[k]? = some g) (body : g.body = .code declared statements home) :
    ∃ i label name parameters returnTypeName, k = i + 2 ∧
      defined[i]? = some (.function label name parameters returnTypeName statements) := by
  have user : 2 ≤ k := by
    refine Nat.le_of_not_lt fun early => ?_
    have print := h.print k g early known
    rw [body] at print
    cases print
  obtain ⟨i, rfl⟩ := Nat.exists_eq_add_of_le' user
  have inside := (Array.getElem?_eq_some_iff.1 known).1
  rw [h.size] at inside
  have here : defined[i]? = some defined[i] := List.getElem?_eq_getElem (by omega)
  obtain ⟨g', known', _, _, _, _, _, _, same, -, -, body'⟩ := h.code i _ here
  rw [known] at known'
  cases known'
  rw [body] at body'
  cases body'
  exact ⟨i, _, _, _, _, rfl, here.trans (congrArg some same)⟩

/-- Before a program has defined any function. -/
theorem fresh : Machine.fresh.world.store.Numbers [] := by
  obtain ⟨blocks, -, f, functions, print⟩ := fresh_store
  refine ⟨?_, fun n g early known => ?_, fun i f here => ?_, fun sign n known => ?_⟩
  · rw [functions]
    rfl
  · have mem := Array.mem_of_getElem? known
    rw [functions] at mem
    have same : g = f := by simpa using mem
    rw [same]
    exact print
  · cases here
  · rw [Store.block, blocks] at known
    simp only [List.getElem?_toArray, List.getElem?_cons_succ, List.getElem?_cons_zero,
      Option.getD_some, List.lookup_cons, List.lookup_nil] at known
    split at known
    · cases known
      exact Or.inl (by decide)
    · cases known

end Store.Numbers

/-- Where functions are looked for in a machine, they are those of the block of the program. -/
structure Machine.Rooted (m : Machine) : Prop where
  room : 1 < m.world.store.blocks.size
  invokes : ∀ env, m.Invokes env → ∀ key arity, m.world.store.findFunction env key arity =
    (m.world.store.block 1).functions.lookup (key, arity)
  outside : ∀ env, m.Outside env → env = ⟨1, []⟩

theorem Annotated.Accepted.rooted {a : Annotated} (accepted : a.Accepted) {settings : Settings}
    {past : List Machine} {m : Machine} (run : Machine.fresh.Reaches settings a past m) :
    m.Rooted := by
  obtain ⟨c, runs, -, -⟩ := accepted.course a.found false settings ⟨False, False⟩
    (fun _ => rfl) (fun h => by cases h) False.elim False.elim
  have stage := runs.stage run
  have root := runs.root
  exact ⟨root ▸ stage.room, fun env invokes => root ▸ stage.invokes invokes,
    fun env outside => root ▸ stage.outside outside⟩

end PlcLang
