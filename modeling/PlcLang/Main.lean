import PlcLang.CommandLine.Command

namespace PlcLang.CommandLine

/-- More steps than any run can make in practice. -/
def patience : Nat := 1000000000000000000

/-- What stands under a name. To read a directory is error 21 of the system. -/
def entryAt (name : String) : IO (Option Entry) := do
  try
    return some (.text (← IO.FS.readFile name))
  catch
    | .inappropriateType _ 21 _ => return some .directory
    | _ => return none

/-- The files that a command names. -/
def namedEntries (arguments : List String) : IO (List (String × Entry)) := do
  match Options.ofArguments arguments with
  | .error _ => return []
  | .ok o =>
    [o.emitFrom, o.treeFrom, o.program].filterMapM fun name => do
      match name with
      | none => return none
      | some name => return (← entryAt name).map fun entry => (plainPath name, entry)

end PlcLang.CommandLine

open PlcLang CommandLine

def main (arguments : List String) : IO UInt32 := do
  let entries ← namedEntries arguments
  let effects := perform patience (fun name => entries.lookup name) arguments
  IO.print effects.output
  IO.eprint effects.errors
  for (name, text) in effects.files do
    IO.FS.writeFile name text
  match effects.status with
  | .ok status => return status.toUInt32
  | .error c =>
    IO.eprintln s!"plc: stopped: {c.message}"
    return 1
