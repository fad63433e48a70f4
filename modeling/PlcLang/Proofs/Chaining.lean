import PlcLang.Proofs.Chaining.Session
import PlcLang.Tree.Program

namespace PlcLang

/-- Programs that run one after another, each in a block inside that of the one before and checked
behind it, at every point of every run of the next: a call that is made is one of the function that
the checker found for it, and stands for the same node in the same program, unless the program of
the call defines a function of that name and arity itself, and the checker found one of a program
before it. Then it is the program's own function that is called. -/
theorem calls_bound {links : List Link} {s : Session} {n : Node Unit} {L : Link}
    (chained : s.Chained links) (admits : s.Admits n L) {settings : Settings}
    {past : List Machine} {m : Machine} {label : Label} {name : Json} {arity : Nat}
    (run : L.machine.Reaches settings L.program past m) (call : m.Calls label name arity) :
    ∃ key i arguments K, name.key? = some key ∧
      Agrees (L :: links) L.found m.world.store.functions label key arity i ∧
      arguments.length = arity ∧
      m.step settings L.program = .next ⟨.call i arguments, K, m.calls, m.world⟩ := by
  obtain ⟨Γ, globals, functions, founded, -⟩ := admits.founded chained.sound
  exact (founded.reaches run).agrees call

/-- A function without parameters that gives a value. -/
def Function.giving (name : String) (e : Expr) : Function :=
  ⟨name, [], some "Integer", [.ret e]⟩

/-- A program with a function `f` that gives 1. -/
def Program.offering : Program :=
  ⟨[], [.giving "f" (.literal (.integer 1)), .giving "main" (.literal (.integer 0))]⟩

/-- A program that calls a function `f` which it does not have. -/
def Program.borrowing : Program :=
  ⟨[], [.giving "g" (.call "f" []), .giving "main" (.call "g" [])]⟩

/-- A program that calls `f` in front of a function `f` of its own, which gives 2. -/
def Program.overriding : Program :=
  ⟨[], [.giving "g" (.call "f" []), .giving "f" (.literal (.integer 2)),
    .giving "main" (.call "g" [])]⟩

/-- A session behind a program in a block of its own. -/
def Session.behind (s : Session) (p : Program) : Session :=
  ((s.load p.toNode).1.perform {} 100 .child true (s.load p.toNode).2).1

/-- The function that a program before it has is called from the next. -/
theorem calls_bound_borrowing :
    ∃ (links : List Link) (s : Session) (L : Link) (past : List Machine) (m : Machine)
      (label : Label), s.Chained links ∧ s.Admits Program.borrowing.toNode L ∧
        L.machine.Reaches {} L.program past m ∧ m.Calls label (.string "f") 0 ∧
        links.length = 1 ∧ past.length = 11 ∧
        ∃ key i arguments K, Json.key? (.string "f") = some key ∧
          Agrees (L :: links) L.found m.world.store.functions label key 0 i ∧
          arguments.length = 0 ∧
          m.step {} L.program = .next ⟨.call i arguments, K, m.calls, m.world⟩ := by
  have first : Session.start.Admits Program.offering.toNode ⟨_, _, _, _, _, _⟩ :=
    ⟨rfl, rfl, rfl, rfl, rfl, rfl⟩
  have chained : (Session.start.behind Program.offering).Chained [_] :=
    .next .start first (Prod.ext rfl rfl)
  have admits : (Session.start.behind Program.offering).Admits Program.borrowing.toNode
    ⟨_, _, _, _, _, _⟩ := ⟨rfl, rfl, rfl, rfl, rfl, rfl⟩
  have start {s : Session} {n : Node Unit} {L : Link} (_ : s.Admits n L) :
      L.machine.Reaches {} L.program [] L.machine := .start
  have run := start admits
  iterate 11 replace run := run.step rfl
  exact ⟨_, _, _, _, _, _, chained, admits, run, .bare, rfl, rfl,
    calls_bound chained admits run .bare⟩

/-- A call is checked against the function of a program before, and calls another that its own
program defines behind it. -/
theorem calls_bound_overriding :
    ∃ (links : List Link) (s : Session) (L : Link) (past : List Machine) (m : Machine)
      (label : Label) (b : Signature) (i : Nat) (arguments : List Value) (K : List Frame)
      (f : Callable), s.Chained links ∧ s.Admits Program.overriding.toNode L ∧
        L.machine.Reaches {} L.program past m ∧ m.Calls label (.string "f") 0 ∧
        (L.found.of label).signature = some b ∧
        m.step {} L.program = .next ⟨.call i arguments, K, m.calls, m.world⟩ ∧
        m.world.store.functions[i]? = some f ∧ ¬ Realizes (L :: links) f b := by
  have first : Session.start.Admits Program.offering.toNode ⟨_, _, _, _, _, _⟩ :=
    ⟨rfl, rfl, rfl, rfl, rfl, rfl⟩
  have chained : (Session.start.behind Program.offering).Chained [_] :=
    .next .start first (Prod.ext rfl rfl)
  have admits : (Session.start.behind Program.offering).Admits Program.overriding.toNode
    ⟨_, _, _, _, _, _⟩ := ⟨rfl, rfl, rfl, rfl, rfl, rfl⟩
  have start {s : Session} {n : Node Unit} {L : Link} (_ : s.Admits n L) :
      L.machine.Reaches {} L.program [] L.machine := .start
  have run := start admits
  iterate 12 replace run := run.step rfl
  refine ⟨_, _, _, _, _, _, ⟨some ⟨0, 0⟩, .string "f", [], .integer⟩, 4, [], _,
    ⟨.string "f", 0, [], some .integer,
      .code [] (.list [.ret (.literal 7 (.integer 2))]) ⟨3, [1, 0]⟩⟩,
    chained, admits, run, .bare, rfl, rfl, rfl, fun realizes => ?_⟩
  obtain ⟨L, mem, check, _, _, body⟩ := realizes.home rfl
  rcases List.mem_cons.1 mem with rfl | mem
  · cases check
  · obtain rfl := List.mem_singleton.1 mem
    cases body

end PlcLang
