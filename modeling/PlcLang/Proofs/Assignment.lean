import Mathlib
import PlcLang.Proofs.Assignment.Lists
import PlcLang.Session
import PlcLang.Tree.Program

namespace PlcLang

section

variable {settings : Settings} {program : Annotated} {m m' : Machine} {list : Nat} {u : Value}
  {node : Node Label} {K : List Frame}

/-- An index that is accepted reads an element. -/
theorem Machine.reads_element (here : m.control = .value u)
    (waits : m.frames = .index list node :: K) (next : m.step settings program = .next m') :
    ∃ (i : Nat) (x : Value), u = .integer i ∧ m.world.store.cell (.element list i) = some x ∧
      m'.control = .value x ∧ m'.frames = K := by
  have resumes : m.step settings program =
      Situation.resume ⟨settings, program, K, m.calls, m.world⟩ u (.index list node) := by
    simp only [Machine.step, here, waits]
  rw [resumes] at next
  simp only [Situation.resume] at next
  rcases Situation.requireIndex_cases ⟨settings, program, K, m.calls, m.world⟩ list u node with
    ⟨f, fails, -⟩ | ⟨i, items, rfl, known, inside, goes⟩
  · rw [fails] at next
    cases next
  · rw [goes] at next
    cases next
    have known : m.world.store.lists[list]? = some items := known
    refine ⟨i, items[i], rfl, ?_, ?_, rfl⟩
    · simp only [Store.cell, known, Option.bind_some, Array.getElem?_eq_getElem inside]
    · simp only [known, Option.getD_some, Array.getElem?_eq_getElem inside]

end

/-- In every run of every tree, annotated or not: an assignment, until it is over, evaluates its
value and then, for a list that the variable holds, its offset; if it ends the run itself, the store
is as these evaluations leave it, and otherwise it writes one place of that store, the variable or
the element, which is then read through every value that is the list. A list is made by a list
literal, with as many elements, and keeps their number; an element gets another value only from an
assignment with an offset; and an index that is accepted is that of an element. -/
theorem assignments_write_one_place {env : Env} {w : World} {settings : Settings}
    {program : Annotated} {past : List Machine} {m : Machine}
    (run : (Machine.initial env w).Reaches settings program past m) :
    (∀ (receiver value : Node Label) (rest : List (Node Label)) (inner : Env)
      (begins : m.control = .execute (.assignment receiver value :: rest) inner) (last : Step),
      m.Under settings program (.rest rest inner) last →
      (Assignment.mk settings program m receiver value rest inner begins).Stage last ∧
      ∀ w' c v m',
        (Assignment.mk settings program m receiver value rest inner begins).Assigned w' c v m' →
        w'.store.Writes c v m'.world.store ∧ ∀ list i, c = .element list i →
          ∀ u : Value, u = .list list → m'.world.store.item u i = some v) ∧
    (∀ (list : Nat) (items : Array Value), m.world.store.lists[list]? = some items →
      ∀ last, m.Spans settings program (fun _ => True) last →
      ∃ items', last.world.store.lists[list]? = some items' ∧ items'.size = items.size) ∧
    (∀ (list : Nat) (items : Array Value), w.store.lists.size ≤ list →
      m.world.store.lists[list]? = some items → ∃ p ∈ past, p.Lists items.size) ∧
    (∀ (list : Nat) (items : Array Value), m.world.store.lists.size ≤ list →
      (m.step settings program).world.store.lists[list]? = some items →
      ∃ p ∈ m :: past, p.Lists items.size ∧ ∃ m', m.step settings program = .next m' ∧
        m'.control = .value (.list list) ∧ m'.frames = p.frames) ∧
    (∀ (list i : Nat) (u : Value), m.world.store.cell (.element list i) = some u →
      (m.step settings program).world.store.cell (.element list i) ≠ some u →
      ∃ v receiver K, m.control = .value (.integer i) ∧ m.frames = .target list v receiver :: K ∧
        (m.step settings program).world.store.cell (.element list i) = some v ∧
        ∃ p ∈ past, ∃ value rest inner, K = .rest rest inner :: p.frames ∧
          p.control = .execute (.assignment receiver value :: rest) inner) ∧
    ∀ (u : Value) (list : Nat) (node : Node Label) (K : List Frame) (m' : Machine),
      m.control = .value u → m.frames = .index list node :: K →
      m.step settings program = .next m' →
      ∃ (i : Nat) (x : Value), u = .integer i ∧
        m.world.store.cell (.element list i) = some x ∧ m'.control = .value x ∧ m'.frames = K := by
  refine ⟨fun receiver value rest inner begins last under => ⟨Assignment.stage under, ?_⟩,
    fun list items known last spans => spans.length known,
    fun list items new known => run.lists rfl new known,
    fun list items new known => run.makes_list rfl new known,
    fun list i u known other => run.writes_element rfl known other,
    fun u list node K m' here waits next => Machine.reads_element here waits next⟩
  intro w' c v m' assigned
  have writes := assigned.writes
  refine ⟨writes, fun list i same u holds => ?_⟩
  subst same holds
  exact writes.written

/-- A program that writes an element of a list that two variables hold. -/
def Program.aliased : Program :=
  let number (n : Int) : Expr := .literal (.integer n)
  ⟨[], [⟨"main", [], some "Integer",
      [.declaration "xs" none (some (.list [number 1])),
        .declaration "ys" none (some (.access "xs" none)),
        .assignment (.access "xs" (some (number 0))) (number 5),
        .ret (.access "ys" (some (number 0)))]⟩]⟩

/-- When the element is written, the list is as long as it was, and the other variable reads the new
value. -/
theorem assignments_write_one_place_aliased :
    let store := (Session.start.place .fresh).1.store
    let program := Program.aliased.toNode.annotated #[]
    ∃ (past : List Machine) (m m' : Machine) (receiver value : Node Label)
      (rest : List (Node Label)) (inner : Env)
      (begins : m.control = .execute (.assignment receiver value :: rest) inner),
      (Machine.initial ⟨1, []⟩ { store := store }).Reaches {} program past m ∧
      m.Under {} program (.rest rest inner) (.next m') ∧
      (Assignment.mk {} program m receiver value rest inner begins).Stage (.next m') ∧
      m.world.store.lists = #[#[.integer 1]] ∧ m'.control = .ended ∧
      (m'.world.store.vars[1]?.bind fun ys => m'.world.store.item ys.value 0) = some (.integer 5) ∧
      ∃ items, m'.world.store.lists[0]? = some items ∧ items.size = 1 := by
  intro store program
  have run : (Machine.initial ⟨1, []⟩ { store := store }).Reaches {} program []
    (Machine.initial ⟨1, []⟩ { store := store }) := .start
  iterate 16 replace run := run.step (show Machine.step _ _ _ = .next _ by cbv)
  have start {past : List Machine} {m : Machine} {rest : List (Node Label)} {inner : Env}
      {statement : Node Label} (_ : m.control = .execute (statement :: rest) inner)
      (_ : (Machine.initial ⟨1, []⟩ { store := store }).Reaches {} program past m) :
      m.Under {} program (.rest rest inner) (m.step {} program) := .first
  have under := start rfl run
  rw [show Machine.step _ _ _ = .next _ by cbv] at under
  iterate 4
    replace under := under.later (by
      repeat first
        | exact List.suffix_rfl
        | refine List.IsSuffix.trans ?_ (List.suffix_cons _ _))
    rw [show Machine.step _ _ _ = .next _ by cbv] at under
  obtain ⟨stage, lengths, -⟩ := assignments_write_one_place run
  have length := lengths 0 #[.integer 1] rfl _ (Machine.Spans.mono (fun _ _ => trivial) under)
  exact ⟨_, _, _, _, _, _, _, rfl, run, under, (stage _ _ _ _ rfl _ under).1, rfl, rfl, rfl, length⟩

end PlcLang
