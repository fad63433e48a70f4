import PlcLang.Machine.Step

/-! The notes that are due in a run, whether they are made or not. -/

namespace PlcLang

/-- A note that is due from a debug level on. Making its texts may fail. -/
structure Remark where
  level : Nat
  note : Except Fault Note

namespace Remark

/-- The notes that are made at a debug level, up to the first that fails. -/
def notes (level : Nat) (remarks : List Remark) : Except Fault (List Note) :=
  (remarks.filter (·.level ≤ level)).mapM (·.note)

end Remark

namespace Situation

variable (s : Situation)

/-- A remark with the text of a value. -/
def remarkOn (level : Nat) (v : Value) (n : String → Note) : Remark :=
  ⟨level, (s.world.text s.settings v).map n⟩

/-- On the default branch of a switch, if it is reached before another value is evaluated. -/
def selectRemark (subject : Value) (default : Option (Node Label)) :
    List (Node Label) → Option Remark
  | [] => default.map fun _ => s.remarkOn 3 subject (.switched · "default")
  | case :: rest =>
    match case.content? with
    | some .nothing => selectRemark subject (some case) rest
    | _ => none

/-- On a call, before anything of it is done. -/
def callRemark (n : Nat) (arguments : List Value) : Option Remark :=
  (s.world.store.functions[n]?).map fun f =>
    ⟨1, (arguments.mapM (s.world.text s.settings)).map (.call f.name)⟩

/-- On what a value leads to in the frame that waited for it: a new variable, or a decision. -/
def resumeRemark (v : Value) : Frame → Option Remark
  | .global (.global label name isMutable typeName value) _ _ env =>
    match s.world.addFree env name (s.annotation label).binding isMutable v
      (some (.global label name isMutable typeName value)) with
    | .ok _ => some (s.remarkOn 2 v (.global name))
    | .error _ => none
  | .declaration _ name _ =>
    match name.key with
    | .ok _ => some (s.remarkOn 2 v (.declared name))
    | .error _ => none
  | .branch .. =>
    match v with
    | .boolean _ => some (s.remarkOn 3 v (.condition "if"))
    | _ => none
  | .condition .. =>
    match v with
    | .boolean _ => some (s.remarkOn 3 v (.condition "while"))
    | _ => none
  | .subject cases _ =>
    match cases.items with
    | .ok cases => s.selectRemark v none cases
    | .error _ => none
  | .case subject default _ rest _ =>
    match s.world.store.lists.equal s.settings.depth v subject with
    | .ok true => some (s.remarkOn 3 subject (.switched · "case"))
    | .ok false => s.selectRemark subject default rest
    | .error _ => none
  | _ => none

/-- On a function, once it is defined. -/
def defineRemark (f : Node Label) (env : Env) : Option Remark :=
  match f with
  | .function _ name parameters returnTypeName statements =>
    let header : Except Fault (List (Declared Label × Ty) × Option Ty × Key) := do
      let parameters ← f.headerTypes (← parameters.items)
      return (parameters, ← resolveOptional returnTypeName f, ← name.key)
    match header with
    | .ok (parameters, returns, key) =>
      let callable : Callable := ⟨name, parameters.length, parameters.map (·.2), returns,
        .code (parameters.map (·.1)) statements env⟩
      (s.world.store.defineFunction env key callable).map fun _ =>
        ⟨2, .ok (.defined name callable.arity)⟩
    | .error _ => none
  | _ => none

end Situation

namespace Machine

/-- The note that is due when a machine makes its next step. -/
def remark (settings : Settings) (program : Annotated) (m : Machine) : Option Remark :=
  let s : Situation := ⟨settings, program, m.frames, m.calls, m.world⟩
  match m.control, m.frames with
  | .functions (f :: _) env, _ => s.defineRemark f env
  | .call n arguments, _ => s.callRemark n arguments
  | .value v, frame :: frames => { s with frames := frames }.resumeRemark v frame
  | _, _ => none

/-- The notes that are due in the first steps of a run, in turn. -/
def remarks (settings : Settings) (program : Annotated) : Nat → Machine → List Remark
  | 0, _ => []
  | steps + 1, m =>
    (m.remark settings program).toList ++
      match m.step settings program with
      | .next m => remarks settings program steps m
      | .halt .. => []

end Machine

end PlcLang
