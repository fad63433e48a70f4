import PlcLang.Machine.Step

namespace PlcLang

/-- The variables that a run has made for declarations: for globals, and in each call of a function
of the program that is open, the latest call first. A declaration that is executed again counts with
its newest variable. -/
structure Made where
  globals : Table DeclId Nat := []
  calls : List (Table DeclId Nat) := []

namespace Made

/-- The variable made last for a declaration, in the current call or else for a global. -/
def latest (made : Made) (id : DeclId) : Option Nat :=
  ((made.calls.headD []).lookup id).or (made.globals.lookup id)

/-- The node with a label makes a variable. -/
def note (found : Annotations) (label : Label) (n : Nat) (t : Table DeclId Nat) :
    Table DeclId Nat :=
  match (found.of label).binding with
  | some b => t.put b.id n
  | none => t

/-- Parameters make variables in turn. -/
def noteAll (found : Annotations) : List (Declared Label) → Nat → Table DeclId Nat →
    Table DeclId Nat
  | [], _, t => t
  | p :: rest, n, t => noteAll found rest (n + 1) (note found p.label n t)

/-- What a step of a machine makes, where the checker found `found`. -/
def after (found : Annotations) (m : Machine) (made : Made) : Made :=
  match m.control, m.frames with
  | .call n _, _ =>
    match m.world.store.functions[n]? with
    | some ⟨_, _, _, _, .code parameters _ _⟩ =>
      { made with calls := noteAll found parameters m.world.store.vars.size [] :: made.calls }
    | _ => made
  | .value _, .global (.global label ..) .. :: _ =>
    { made with globals := note found label m.world.store.vars.size made.globals }
  | .value _, .declaration label .. :: _ =>
    match made.calls with
    | here :: callers =>
      { made with calls := note found label m.world.store.vars.size here :: callers }
    | [] => made
  | .value _, .activation _ :: _ => { made with calls := made.calls.tail }
  | .ended, .activation _ :: _ => { made with calls := made.calls.tail }
  | .leave _, .activation _ :: _ => { made with calls := made.calls.tail }
  | _, _ => made

/-- What the machines of a run have made, the latest first. -/
def of (found : Annotations) (past : List Machine) : Made :=
  past.foldr (after found) {}

end Made

/-- A machine comes from another by steps; `past` are the machines before it, the latest first. -/
inductive Machine.Reaches (settings : Settings) (program : Annotated) (m : Machine) :
    List Machine → Machine → Prop where
  | start : Reaches settings program m [] m
  | step {past : List Machine} {m₁ m₂ : Machine} (before : Reaches settings program m past m₁)
      (next : m₁.step settings program = .next m₂) : Reaches settings program m (m₁ :: past) m₂

/-- A run that comes to an end comes to a machine whose step ends it. -/
theorem Machine.Reaches.halts {settings : Settings} {program : Annotated} {m₀ m : Machine}
    {past : List Machine} {steps : Nat} {w : World} {result : Except Fault Value}
    (before : m₀.Reaches settings program past m)
    (ends : Machine.run settings program steps m = some (w, result)) :
    ∃ past' m', m₀.Reaches settings program past' m' ∧
      m'.step settings program = .halt w result := by
  induction steps generalizing past m with
  | zero => cases ends
  | succ steps ih =>
    rw [Machine.run] at ends
    split at ends
    · rename_i next
      exact ih (before.step next) ends
    · rename_i halts
      cases ends
      exact ⟨past, m, before, halts⟩

end PlcLang
