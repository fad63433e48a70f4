import PlcLang.Parser.Program
import PlcLang.Session
import PlcLang.Text.Lines

/-! Programs that are run from their text. -/

namespace PlcLang

/-- Checks and runs the program in a text, on its own. -/
def runText (settings : Settings) (steps : Nat) (text : String) : Except ParseError Ending :=
  (Program.parse text).map fun p => p.toNode.perform settings steps true

/-- The same for the text in a file, which is read with unified line ends. -/
def runFile (settings : Settings) (steps : Nat) (content : String) : Except ParseError Ending :=
  runText settings steps (String.ofList (Text.unifyLineEnds content.toList))

end PlcLang
