import PlcLang.Main
import PlcLang.Proofs.Checking.Scope
import PlcLang.Proofs.Checking.Statement
import PlcLang.Proofs.Checking.Program
import PlcLang.Proofs.Values.Admitted
import PlcLang.Proofs.Values.Applied
import PlcLang.Proofs.Running.History
import PlcLang.Proofs.Running.Scope
import PlcLang.Proofs.Running.Live
import PlcLang.Proofs.Running.Frames
import PlcLang.Proofs.Running.Expressions
import PlcLang.Proofs.Running.Statements
import PlcLang.Proofs.Running.Calls
import PlcLang.Proofs.Running.Step
import PlcLang.Proofs.Running.Program
import PlcLang.Proofs.Running.Start
import PlcLang.Proofs.Resolution
import PlcLang.Proofs.Typing
import PlcLang.Proofs.Agreement.Alike
import PlcLang.Proofs.Running.Points
import PlcLang.Proofs.Agreement.Rules
import PlcLang.Proofs.Agreement.Frames
import PlcLang.Proofs.Agreement
import PlcLang.Proofs.Interchange
import PlcLang.Proofs.Parsing
import PlcLang.Proofs.Renaming
import PlcLang.Proofs.Chaining
import PlcLang.Proofs.Checking.Faults
import PlcLang.Proofs.Grammar
import PlcLang.Proofs.Debugging.Remarks
import PlcLang.Proofs.Debugging.Rules
import PlcLang.Proofs.Debugging.Characters
import PlcLang.Proofs.Debugging.Failures
import PlcLang.Proofs.Debugging.Lockstep
import PlcLang.Proofs.Debugging
import PlcLang.Proofs.Json.Strings
import PlcLang.Proofs.Json.Values
import PlcLang.Proofs.Interchange.Texts
import PlcLang.Proofs.Json.Lines
import PlcLang.Proofs.CommandLine
import PlcLang.Proofs.Elaboration.Rules
import PlcLang.Proofs.Elaboration.Names
import PlcLang.Proofs.Elaboration.Types
import PlcLang.Proofs.Elaboration.Sound
import PlcLang.Proofs.Elaboration.Complete
import PlcLang.Proofs.Elaboration.Unique
import PlcLang.Proofs.Elaboration
import PlcLang.Proofs.Descent
import PlcLang.Proofs.Containment
import PlcLang.Proofs.Limits
import PlcLang.Proofs.Isolation
import PlcLang.Proofs.Parsing.Lexemes
import PlcLang.Proofs.Layout
import PlcLang.Proofs.Parsing.Completion
import PlcLang.Proofs.Viability
import PlcLang.Proofs.Arithmetic
import PlcLang.Proofs.Numerals
import PlcLang.Proofs.Confinement
import PlcLang.Proofs.Assignment
import PlcLang.Proofs.Immutability
import PlcLang.Proofs.DeadCode
import PlcLang.Proofs.Precedence
import PlcLang.Proofs.Scoping
import PlcLang.Proofs.Quotation
import PlcLang.Proofs.Comparison
