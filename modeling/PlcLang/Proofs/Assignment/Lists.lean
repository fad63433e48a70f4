import PlcLang.Proofs.Assignment.Stages
import PlcLang.Proofs.Running.Spans

/-! Lists keep the number of their elements. -/

namespace PlcLang

/-- What a step does to lists: nothing, or it makes one, or it writes an element. -/
inductive Machine.ChangesLists (m : Machine) : Lists → Prop where
  | nothing : ChangesLists m m.world.store.lists
  | empty {label : Label} {env : Env}
      (here : m.control = .evaluate (.listLiteral label (.list [])) env) :
      ChangesLists m (m.world.store.lists.push #[])
  | list {v : Value} {done : List Value} {env : Env} {K : List Frame} (here : m.control = .value v)
      (waits : m.frames = .element done [] env :: K) :
      ChangesLists m (m.world.store.lists.push (v :: done).reverse.toArray)
  | stores {i : Nat} {list : Nat} {items : Array Value} {v : Value} {receiver : Node Label}
      {K : List Frame} (here : m.control = .value (.integer i))
      (waits : m.frames = .target list v receiver :: K)
      (known : m.world.store.lists[list]? = some items) (inside : i < items.size) :
      ChangesLists m (m.world.store.setElement list i v).lists

section

variable {settings : Settings} {program : Annotated} {m m₀ : Machine} {past : List Machine}
  {list : Nat} {items : Array Value}

theorem Machine.changesLists (settings : Settings) (program : Annotated) (m : Machine) :
    m.ChangesLists (m.step settings program).world.store.lists := by
  have changes := m.changes settings program
  generalize (m.step settings program).world.store = s at changes ⊢
  cases changes with
  | nothing | opens | declares | global | assigns => exact .nothing
  | emptyList here => exact .empty here
  | list here waits => exact .list here waits
  | stores here waits known inside => exact .stores here waits known inside
  | @calls _ _ _ _ _ home w _ _ _ same =>
    have opened : (w.openBlock home).1.store.lists = m.world.store.lists := by
      rw [← same]
      rfl
    have lists (arguments : List (Declared Label × Value)) :
        ((w.openBlock home).1.bind (w.openBlock home).2 program.found arguments).1.store.lists =
          m.world.store.lists :=
      World.bind_keeps (P := fun s => s.lists = m.world.store.lists) (fun _ _ _ _ h _ => h)
        opened _ _
    rw [lists]
    exact .nothing
  | defines _ takes =>
    obtain ⟨_, _, _, _, _, _, _, _, _, _, _, _, defined⟩ := takes
    rw [Store.lists_defineFunction defined]
    exact .nothing

/-- A step leaves a list as long as it was. -/
theorem Machine.ChangesLists.length {lists : Lists} (changes : m.ChangesLists lists)
    (known : m.world.store.lists[list]? = some items) :
    ∃ items', lists[list]? = some items' ∧ items'.size = items.size := by
  have inside := (Array.getElem?_eq_some_iff.1 known).1
  cases changes with
  | nothing => exact ⟨items, known, rfl⟩
  | empty | list =>
    refine ⟨items, ?_, rfl⟩
    rw [Array.getElem?_push, if_neg (Nat.ne_of_lt inside), known]
  | stores =>
    simp only [Store.setElement, Array.getElem?_modify, known, Option.map_some]
    split
    · exact ⟨_, rfl, Array.size_setIfInBounds⟩
    · exact ⟨items, rfl, rfl⟩

/-- A list literal that is evaluated with so many elements in front of some frames. -/
def Machine.Lists (p : Machine) (count : Nat) : Prop :=
  ∃ label elements env, p.control = .evaluate (.listLiteral label (.list elements)) env ∧
    elements.length = count

/-- A list is what a list literal comes to, and has as many elements. -/
theorem Machine.Reaches.makes_list (run : m₀.Reaches settings program past m)
    (bare : m₀.frames = []) (new : m.world.store.lists.size ≤ list)
    (known : (m.step settings program).world.store.lists[list]? = some items) :
    ∃ p ∈ m :: past, p.Lists items.size ∧ ∃ m', m.step settings program = .next m' ∧
      m'.control = .value (.list list) ∧ m'.frames = p.frames := by
  have origins := run.origins bare
  have pushed {made : Array Value} (there : (m.world.store.lists.push made)[list]? = some items) :
      list = m.world.store.lists.size ∧ made = items := by
    rw [Array.getElem?_push] at there
    split at there
    · rename_i last
      exact ⟨last, Option.some.inj there⟩
    · have inside := (Array.getElem?_eq_some_iff.1 there).1
      omega
  have changes := m.changesLists settings program
  generalize same : (m.step settings program).world.store.lists = lists at changes known
  cases changes with
  | nothing =>
    have inside := (Array.getElem?_eq_some_iff.1 known).1
    omega
  | @empty label env here =>
    obtain ⟨rfl, rfl⟩ := pushed known
    refine ⟨m, List.mem_cons_self, ⟨label, [], env, here, rfl⟩, ?_⟩
    simp only [Machine.step, here]
    exact ⟨_, rfl, rfl, rfl⟩
  | @list v done env K here waits =>
    obtain ⟨rfl, rfl⟩ := pushed known
    rw [waits] at origins
    obtain ⟨p, mem, label, elements, begun, frames, length⟩ := origins _ _ (List.suffix_refl _)
    refine ⟨p, List.mem_cons_of_mem _ mem, ⟨label, elements, env, begun, ?_⟩, ?_⟩
    · simpa using length
    · simp only [Machine.step, here, waits]
      exact ⟨_, rfl, rfl, frames.symm⟩
  | @stores i target _ _ _ _ _ _ there =>
    have inside := (Array.getElem?_eq_some_iff.1 known).1
    simp only [Store.setElement, Array.size_modify] at inside
    omega

/-- All lists that a run has made are as long as list literals of its past. -/
theorem Machine.Reaches.lists (run : m₀.Reaches settings program past m) (bare : m₀.frames = [])
    (new : m₀.world.store.lists.size ≤ list) (known : m.world.store.lists[list]? = some items) :
    ∃ p ∈ past, p.Lists items.size := by
  induction run generalizing items with
  | start =>
    have inside := (Array.getElem?_eq_some_iff.1 known).1
    omega
  | @step past m₁ m₂ before next ih =>
    have known' : (m₁.step settings program).world.store.lists[list]? = some items := by
      rw [next]
      exact known
    by_cases old : list < m₁.world.store.lists.size
    · have there : m₁.world.store.lists[list]? = some m₁.world.store.lists[list] :=
        Array.getElem?_eq_getElem old
      obtain ⟨items', after, size⟩ := (m₁.changesLists settings program).length there
      obtain ⟨p, mem, literal⟩ := ih there
      cases after.symm.trans known'
      exact ⟨p, List.mem_cons_of_mem _ mem, size ▸ literal⟩
    · obtain ⟨p, mem, literal, -⟩ := before.makes_list bare (Nat.le_of_not_lt old) known'
      exact ⟨p, mem, literal⟩

/-- From any point on, a list stays as long as it is. -/
theorem Machine.Spans.length {kind : Machine → Prop} {last : Step}
    (spans : m.Spans settings program kind last) (known : m.world.store.lists[list]? = some items) :
    ∃ items', last.world.store.lists[list]? = some items' ∧ items'.size = items.size := by
  induction spans with
  | first => exact (m.changesLists settings program).length known
  | @later m' _ _ ih =>
    obtain ⟨between, there, size⟩ := ih
    obtain ⟨items', after, size'⟩ := (m'.changesLists settings program).length there
    exact ⟨items', after, size'.trans size⟩

/-- An element has another value only if an assignment with an offset writes it. -/
theorem Machine.Reaches.writes_element (run : m₀.Reaches settings program past m)
    (bare : m₀.frames = []) {i : Nat} {u : Value}
    (known : m.world.store.cell (.element list i) = some u)
    (other : (m.step settings program).world.store.cell (.element list i) ≠ some u) :
    ∃ v receiver K, m.control = .value (.integer i) ∧ m.frames = .target list v receiver :: K ∧
      (m.step settings program).world.store.cell (.element list i) = some v ∧
      ∃ p ∈ past, ∃ value rest inner, K = .rest rest inner :: p.frames ∧
        p.control = .execute (.assignment receiver value :: rest) inner := by
  have origins := run.origins bare
  have changes := m.changesLists settings program
  have cell (s : Store) : s.cell (.element list i) = s.lists[list]?.bind (·[i]?) := rfl
  rw [cell] at known
  simp only [cell] at other ⊢
  generalize (m.step settings program).world.store.lists = lists at changes other ⊢
  obtain ⟨items, there, element⟩ := Option.bind_eq_some_iff.1 known
  have old := (Array.getElem?_eq_some_iff.1 there).1
  cases changes with
  | nothing => exact (other known).elim
  | empty | list =>
    rw [Array.getElem?_push, if_neg (Nat.ne_of_lt old)] at other
    exact (other known).elim
  | @stores j target items' v receiver K here waits there' inside =>
    rw [waits] at origins
    obtain ⟨p, mem, value, rest, inner, begun, below⟩ := origins _ _ (List.suffix_refl _)
    have writes :
        m.world.store.Writes (.element target j) v (m.world.store.setElement target j v) :=
      Store.writes_setElement there' inside
    by_cases same : Cell.element list i = .element target j
    · cases same
      exact ⟨v, receiver, K, here, waits, writes.written, p, mem, value, rest, inner, below, begun⟩
    · exact (other ((writes.others _ same).trans known)).elim

end

end PlcLang
