import PlcLang.Machine.World

namespace PlcLang

/-- What is done next. -/
inductive Control where
  /-- The program begins. -/
  | start (env : Env)
  | globals (rest : List (Node Label)) (functions : Node Label) (env : Env)
  | functions (rest : List (Node Label)) (env : Env)
  | main (env : Env)
  | evaluate (e : Node Label) (env : Env)
  | execute (statements : List (Node Label)) (env : Env)
  /-- A call of the function with a number. -/
  | call (function : Nat) (arguments : List Value)
  /-- An expression has this value. -/
  | value (v : Value)
  /-- A statement has ended; what is behind it follows. -/
  | ended
  /-- A `RETURN` leaves the function with this value. -/
  | leave (v : Value)
deriving Repr

/-- What waits for a value, or for the end of a statement. -/
inductive Frame where
  /-- The value of a global. -/
  | global (g : Node Label) (rest : List (Node Label)) (functions : Node Label) (env : Env)
  /-- The left operand of an operator that evaluates both. -/
  | left (op : Operator) (right node : Node Label) (env : Env)
  /-- The right operand. -/
  | right (op : Operator) (left : Value) (node : Node Label)
  /-- The left operand of `&&` or `||`, which alone may decide: `decisive` is the value that
  does. -/
  | test (decisive : Bool) (left right : Node Label) (env : Env)
  /-- The right operand of `&&` or `||`. -/
  | boolean (e : Node Label)
  /-- The index into a list. -/
  | index (list : Nat) (node : Node Label)
  /-- An argument; those before it, the last first, and those after it. -/
  | argument (name : Json) (done : List Value) (rest : List (Node Label)) (node : Node Label)
      (env : Env)
  | element (done : List Value) (rest : List (Node Label)) (env : Env)
  /-- A statement that is a call. -/
  | discard
  | declaration (label : Label) (name : Json) (env : Env)
  /-- The new value of a variable, or of an element of the list in it. -/
  | assignment (target : Nat) (offset receiver node : Node Label) (env : Env)
  /-- The index of an element that takes a value. -/
  | target (list : Nat) (v : Value) (receiver : Node Label)
  | branch (condition thenStatements elseStatements : Node Label) (env : Env)
  /-- The value a switch is over. -/
  | subject (cases : Node Label) (env : Env)
  /-- The value of a case; `default` is the last default branch met. -/
  | case (subject : Value) (default : Option (Node Label)) (case : Node Label)
      (rest : List (Node Label)) (env : Env)
  /-- The condition of a loop. -/
  | condition (condition statements : Node Label) (env : Env)
  /-- A round of a loop. -/
  | round (condition statements : Node Label) (env : Env)
  /-- The statements behind one. -/
  | rest (statements : List (Node Label)) (env : Env)
  /-- The value of a `RETURN`. -/
  | result
  /-- A call of a function of the program. -/
  | activation (function : Nat)
deriving Repr

/-- A running program. `calls` counts its activations. -/
structure Machine where
  control : Control
  frames : List Frame
  calls : Nat
  world : World
deriving Repr

/-- What a step leads to. -/
inductive Step where
  | next (m : Machine)
  | halt (world : World) (result : Except Fault Value)

end PlcLang
