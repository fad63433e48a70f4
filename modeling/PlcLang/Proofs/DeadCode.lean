import Mathlib
import PlcLang.Proofs.DeadCode.Lockstep
import PlcLang.Proofs.DeadCode.Returns
import PlcLang.Proofs.Running.Start
import PlcLang.Tree.Program

namespace PlcLang

/-- A tree with what was found on its nodes. -/
def Annotated.nodes (p : Annotated) : Node Annotation :=
  p.tree.map p.found.of

/-- The code of a function with what was found on its nodes. -/
def Body.nodes (found : Annotations) :
    Body → Option (List (Declared Annotation) × Node Annotation)
  | .print => none
  | .code parameters statements _ =>
    some (parameters.map (Declared.map found.of), statements.map found.of)

/-- What is seen of a fault: the cause of a problem and the node it points at. -/
def Fault.seenAs (view : Node Label → Node Annotation) :
    Fault → Cause × Option (Node Annotation) ⊕ Fault
  | .problem p => .inl (p.cause, p.subject.map view)
  | e => .inr e

/-- What is left when a run has ended: what it printed and noted, all its variables and lists, in
the blocks where they are, and what it came to. -/
structure Remains where
  output : String
  notes : Array Note
  blocks : Array Block
  vars : Array Variable
  lists : Lists
  result : Except (Cause × Option (Node Annotation) ⊕ Fault) Value

def Remains.of (view : Node Label → Node Annotation) (w : World) (result : Except Fault Value) :
    Remains :=
  ⟨w.output, w.notes, w.store.blocks, w.store.vars, w.store.lists,
    result.mapError (Fault.seenAs view)⟩

/-- What is left of a run of a program in a block, if it ends in so many steps. A node that a fault
points at is seen with what was found on its nodes, without the statements behind a `RETURN`. -/
def Annotated.remains (settings : Settings) (steps : Nat) (env : Env) (w : World)
    (p : Annotated) : Option Remains :=
  (Machine.run settings p steps (.initial env w)).map fun (w, result) =>
    .of (Node.live p.found.of) w result

namespace Annotations

variable {table : Annotations} {a : Annotation}

/-- The first label with an annotation. -/
def number (table : Annotations) (a : Annotation) : Label :=
  table.toList.idxOf a

theorem of_number (mem : a ∈ table) : table.of (table.number a) = a := by
  have there : table.number a < table.size := List.idxOf_lt_length_of_mem mem.val
  rw [of, Array.getElem?_eq_getElem there, Option.getD_some]
  exact List.getElem_idxOf there

theorem of_mem (found : Annotations) (label : Label) :
    found.of label ∈ found ∨ found.of label = {} := by
  unfold of
  cases known : found[label]? with
  | none => exact .inr rfl
  | some a => exact .inl (Array.mem_of_getElem? known)

end Annotations

theorem Fault.seenAs_live {f : Label → Label} {g : Label → Annotation} (e : Fault) :
    (e.live f).seenAs (Node.map g) = e.seenAs (Node.live (g ∘ f)) := by
  cases e with
  | problem p =>
    obtain ⟨cause, subject⟩ := p
    cases subject with
    | none => rfl
    | some n => exact congrArg (fun n => Sum.inl (cause, some n)) (n.map_live g f)
  | _ => rfl

theorem World.live_of_nodes {found found' : Annotations} {g : Annotation → Label} {w : World}
    (same : ∀ c ∈ w.store.functions, c.body.nodes found = c.body.nodes found') :
    w.live (g ∘ found.of) = w.live (g ∘ found'.of) := by
  have functions : w.store.functions.map (Callable.live (g ∘ found.of)) =
      w.store.functions.map (Callable.live (g ∘ found'.of)) := by
    refine Array.map_congr_left fun c mem => ?_
    have nodes := same c mem
    obtain ⟨name, arity, types, returns, body⟩ := c
    cases body with
    | print => rfl
    | code parameters statements home =>
      obtain ⟨declared, code⟩ := Prod.mk.inj (Option.some.inj nodes)
      have declared := congrArg (List.map (Declared.map g)) declared
      have code := congrArg (Node.live g) code
      rw [List.map_map, List.map_map] at declared
      rw [Node.live_map, Node.live_map] at code
      exact congrArg₂ (fun parameters (code : Node Label) =>
        (⟨name, arity, types, returns, .code parameters code.cut home⟩ : Callable)) declared code
  simp only [World.live, Store.live, functions]

section

variable {settings : Settings} {env : Env} {w : World} {p p' : Annotated}

/-- What is left of a run does not depend on labels, nor on the statements behind a `RETURN`. -/
theorem Annotated.remains_live {table : Annotations} (known : ∀ label, p.found.of label ∈ table)
    (steps : Nat) :
    p.remains settings steps env w =
      (Machine.run settings ⟨p.nodes.live table.number, table⟩ steps
        (.initial env (w.live (table.number ∘ p.found.of)))).map fun (w, result) =>
          .of (Node.map table.of) w result := by
  have back : table.of ∘ (table.number ∘ p.found.of) = p.found.of :=
    funext fun label => Annotations.of_number (known label)
  have lives : p.Lives (table.number ∘ p.found.of) ⟨p.nodes.live table.number, table⟩ :=
    ⟨Node.live_map .., fun label => congrFun back label⟩
  rw [Machine.run_live lives, remains, Option.map_map]
  refine congrArg (Option.map · _) (funext fun (w, result) => ?_)
  refine congrArg (Remains.mk _ _ _ _ _) ?_
  cases result with
  | ok v => rfl
  | error e => exact congrArg Except.error ((back ▸ e.seenAs_live).symm)

/-- Programs that are the same but for the statements behind a `RETURN` leave the same. -/
theorem Annotated.remains_of_live
    (same : ∀ g : Annotation → Label, p.nodes.live g = p'.nodes.live g)
    (functions : ∀ c ∈ w.store.functions, c.body.nodes p.found = c.body.nodes p'.found)
    (steps : Nat) : p.remains settings steps env w = p'.remains settings steps env w := by
  let table : Annotations := (p.found ++ p'.found).push {}
  have known (label : Label) : p.found.of label ∈ table := by
    rcases p.found.of_mem label with mem | none <;> simp [table, *]
  have known' (label : Label) : p'.found.of label ∈ table := by
    rcases p'.found.of_mem label with mem | none <;> simp [table, *]
  rw [remains_live known, remains_live known', same, World.live_of_nodes functions]

end

/-- Nothing is found on the nodes of a tree that was just taken up. -/
theorem Node.nodes_annotated (n : Node Unit) (g : Annotation → Label) :
    (n.annotated #[]).nodes.live g = n.live fun _ => g {} := by
  have plain : (n.annotated #[]).tree.plain = n := n.plain_withLabels _
  have bare : (n.annotated #[]).found.of = fun _ => {} := funext n.of_annotated
  conv => rhs; rw [← plain, Node.plain_eq, Node.live_map]
  rw [Annotated.nodes, Node.live_map, bare]
  rfl

/-- In every program, annotated or not, the statements behind a `RETURN` of a block may be any
others: at every debug level it prints, notes and comes to the same, and leaves the same variables
with the same values. For in every run a `RETURN` is in blocks up to the call of its function, and
when it has a value, this becomes the value of that call, and nothing else is done. -/
theorem dead_behind_return (settings : Settings) (env : Env) (w : World) :
    (∀ (p p' : Annotated) (steps : Nat), p.nodes.SourceVaries p'.nodes →
      (∀ c ∈ w.store.functions, c.body.nodes p.found = c.body.nodes p'.found) →
      p.remains settings steps env w = p'.remains settings steps env w) ∧
    (∀ (n n' : Node Unit) (steps : Nat), n.SourceVaries n' →
      (n.annotated #[]).remains settings steps env w =
        (n'.annotated #[]).remains settings steps env w) ∧
    ∀ (p : Annotated) (past : List Machine) (m : Machine) (value : Node Label)
      (rest : List (Node Label)) (inner : Env),
      (Machine.initial env w).Reaches settings p past m →
      m.control = .execute (.ret value :: rest) inner →
      ∃ (L K : List Frame) (k : Nat) (arguments : List Value) (call : Machine),
        m.frames = L ++ .activation k :: K ∧ (∀ f ∈ L, f.isBlock = true) ∧
        call ∈ past ∧ call.control = .call k arguments ∧ call.frames = K ∧
        ∀ (before : List Machine) (m' : Machine) (v : Value),
          m.Reaches settings p before m' → m'.control = .value v →
          m'.frames = .result :: .rest rest inner :: m.frames →
          ∃ between, m'.Reaches settings p (between ++ [m'])
              ⟨.value v, K, m'.calls - 1, m'.world⟩ ∧
            ∀ q ∈ between, q.control = .leave v := by
  refine ⟨fun p p' steps varies functions => ?_, fun n n' steps varies => ?_,
    fun p past m value rest inner run here => ?_⟩
  · exact Annotated.remains_of_live (fun _ => varies.live) functions steps
  · refine Annotated.remains_of_live (fun g => ?_) (fun c _ => ?_) steps
    · rw [Node.nodes_annotated, Node.nodes_annotated, varies.live]
    · have bare (n : Node Unit) : (n.annotated #[]).found.of = fun _ => {} := funext n.of_annotated
      cases c.body with
      | print => rfl
      | code => simp only [Body.nodes, bare]
  · obtain ⟨L, k, K, frames, blocks⟩ := run.phase.to_call here
    have below : .activation k :: K <:+ m.frames := ⟨L, frames.symm⟩
    obtain ⟨call, mem, arguments, called, waits⟩ := run.origins rfl _ _ below
    refine ⟨L, K, k, arguments, call, frames, blocks, mem, called, waits, ?_⟩
    intro before m' v _ control waiting
    rw [frames] at waiting
    exact Machine.returns_value blocks control waiting

/-- A program that returns from a loop in a function, with other statements behind. -/
def Program.early (dead : List Stmt) : Program :=
  ⟨[], [⟨"f", [], some "Integer",
      [.loop (.literal (.boolean true)) [.conditional (.literal (.boolean true))
        (.ret (.literal (.integer 7)) :: dead) []]]⟩,
    ⟨"main", [], some "Integer", [.ret (.call "f" [])]⟩]⟩

/-- With other statements behind, it comes to the same value, which is that of the call of `f`. -/
theorem dead_behind_return_early :
    let w : World := { store := (Session.start.place .fresh).1.store }
    let n := (Program.early []).toNode
    let n' := (Program.early [.ret (.literal .nil), .expression (.call "print" [])]).toNode
    let found : Annotations := #[⟨some .integer, none, none⟩]
    let p : Annotated := ⟨n.map fun _ => 0, found⟩
    let p' : Annotated := ⟨n'.map fun _ => 0, found⟩
    (n.SourceVaries n' ∧ (n.annotated #[]).remains {} 100 ⟨1, []⟩ w =
      (n'.annotated #[]).remains {} 100 ⟨1, []⟩ w) ∧
    (p.nodes.SourceVaries p'.nodes ∧
      p.remains {} 100 ⟨1, []⟩ w = p'.remains {} 100 ⟨1, []⟩ w ∧
      (p.remains {} 100 ⟨1, []⟩ w).map (·.result.toOption) = some (some (.integer 7))) ∧
    ∃ (past before between : List Machine) (m m' call : Machine) (k : Nat)
      (arguments : List Value), (Machine.initial ⟨1, []⟩ w).Reaches {} p' past m ∧ call ∈ past ∧
      call.control = .call k arguments ∧ m.Reaches {} p' before m' ∧
      m'.control = .value (.integer 7) ∧
      m'.Reaches {} p' (between ++ [m'])
        ⟨.value (.integer 7), call.frames, m'.calls - 1, m'.world⟩ := by
  intro w n n' found p p'
  have plain : n.SourceVaries n' :=
    .body [] (.within [] (.loop (.within [] (.thenBlock (.behind [])))))
  have nodes : p.nodes.SourceVaries p'.nodes :=
    .body [] (.within [] (.loop (.within [] (.thenBlock (.behind [])))))
  obtain ⟨annotated, unannotated, returns⟩ := dead_behind_return {} ⟨1, []⟩ w
  refine ⟨⟨plain, unannotated n n' 100 plain⟩,
    ⟨nodes, annotated p p' 100 nodes fun _ _ => rfl, by cbv⟩, ?_⟩
  have run : (Machine.initial ⟨1, []⟩ w).Reaches {} p' [] (Machine.initial ⟨1, []⟩ w) := .start
  iterate 16 replace run := run.step (show Machine.step _ _ _ = .next _ by cbv)
  obtain ⟨L, K, k, arguments, call, frames, blocks, mem, called, rfl, arrives⟩ :=
    returns p' _ _ _ _ _ run rfl
  have worked {past : List Machine} {m : Machine}
      (_ : (Machine.initial ⟨1, []⟩ w).Reaches {} p' past m) : m.Reaches {} p' [] m := .start
  have value := worked run
  iterate 2 replace value := value.step (show Machine.step _ _ _ = .next _ by cbv)
  obtain ⟨between, after, -⟩ := arrives _ _ _ value rfl rfl
  exact ⟨_, _, between, _, _, call, k, arguments, run, mem, called, value, rfl, after⟩

end PlcLang
