import PlcLang.Integer
import PlcLang.Key
import PlcLang.Tree.Annotation
import PlcLang.Value.Basic

namespace PlcLang

/-- Whether a rule is broken while a program is checked or while it runs. -/
inductive Phase where
  | check
  | run
deriving DecidableEq, Repr

/-- The classes of errors that programs can make. -/
inductive ErrorClass where
  | duplicateBinding | unresolvedName | typeMismatch | missingType | switchStructure
  | literalRange | unknownOperator | missingEntryPoint | invalidStatement | invalidExpression
  | immutableAssignment | indexOutOfRange | runtimeUnresolvedName | runtimeDuplicateBinding
  | runtimeType | arithmeticType | invalidArithmetic | internalConsistency
deriving DecidableEq, Repr

namespace ErrorClass

def name : ErrorClass → String
  | duplicateBinding => "DuplicateBindingError"
  | unresolvedName => "UnresolvedNameError"
  | typeMismatch => "TypeMismatchError"
  | missingType => "MissingTypeError"
  | switchStructure => "SwitchStructureError"
  | literalRange => "LiteralRangeError"
  | unknownOperator => "UnknownOperatorError"
  | missingEntryPoint => "MissingEntryPointError"
  | invalidStatement => "InvalidStatementError"
  | invalidExpression => "InvalidExpressionError"
  | immutableAssignment => "ImmutableAssignmentError"
  | indexOutOfRange => "IndexOutOfRangeError"
  | runtimeUnresolvedName => "RuntimeUnresolvedNameError"
  | runtimeDuplicateBinding => "RuntimeDuplicateBindingError"
  | runtimeType => "RuntimeTypeError"
  | arithmeticType => "ArithmeticTypeError"
  | invalidArithmetic => "InvalidArithmeticError"
  | internalConsistency => "InternalConsistencyError"

/-- The phase that an error of the class belongs to. An unknown type name is a checking error
also where an unchecked program meets it. -/
def phase : ErrorClass → Phase
  | duplicateBinding | unresolvedName | typeMismatch | missingType | switchStructure
  | literalRange | unknownOperator | missingEntryPoint | invalidStatement | invalidExpression =>
    .check
  | _ => .run

end ErrorClass

/-- What is wrong with a program. Values are named by their tags. -/
inductive Cause where
  | duplicateVariable (phase : Phase) (name : Json)
  | duplicateFunction (phase : Phase) (name : Json) (arity : Nat)
  | undefinedVariable (phase : Phase) (name : Json)
  | undefinedFunction (phase : Phase) (name : Json) (arity : Nat)
  | unknownOperator (phase : Phase) (op : Operator)
  | noMain (phase : Phase)
  | unknownType (name : Json)
  | notAssignable (target source : Ty)
  | mainResult
  | condition (statement : String) (found : Ty)
  | indexType (found : Ty)
  | incomparableTypes (left right : Ty)
  | operandType (op : Operator) (found : Ty)
  | unsupportedLiteral (value : Foreign)
  | untypedGlobal (name : Json)
  | untypedVariable (name : Json)
  | noDefault
  | defaultWithValue
  | caseWithoutValue
  | integerRange (n : Int)
  | decimalRange (d : Decimal)
  | notACall
  | receiverNotAccess
  | emptyThen
  | groupNotBinary
  | immutable (name : Json)
  | indexRange (index : Int) (length : Nat)
  | notBoolean (found : Tag)
  | notIndexable (found : Tag)
  | indexTag (found : Tag)
  | targetNotAccess
  | incomparable (left right : Tag)
  | unsupportedOperands (op : Operator) (left right : Tag)
  | divisionByZero
  | negativeExponent (n : Int)
deriving DecidableEq, Repr

namespace Cause

def errorClass : Cause → ErrorClass
  | duplicateVariable .check _ | duplicateFunction .check .. => .duplicateBinding
  | duplicateVariable .run _ | duplicateFunction .run .. => .runtimeDuplicateBinding
  | undefinedVariable .check _ | undefinedFunction .check .. | unknownType _ => .unresolvedName
  | undefinedVariable .run _ | undefinedFunction .run .. => .runtimeUnresolvedName
  | unknownOperator .check _ => .unknownOperator
  | unknownOperator .run _ => .runtimeType
  | noMain .check => .missingEntryPoint
  | noMain .run => .internalConsistency
  | notAssignable .. | mainResult | condition .. | indexType _ | incomparableTypes ..
  | operandType .. | unsupportedLiteral _ => .typeMismatch
  | untypedGlobal _ | untypedVariable _ => .missingType
  | noDefault | defaultWithValue | caseWithoutValue => .switchStructure
  | integerRange _ | decimalRange _ => .literalRange
  | notACall | receiverNotAccess | emptyThen => .invalidStatement
  | groupNotBinary => .invalidExpression
  | immutable _ => .immutableAssignment
  | indexRange .. => .indexOutOfRange
  | notBoolean _ | notIndexable _ | indexTag _ | targetNotAccess => .runtimeType
  | incomparable .. | unsupportedOperands .. => .arithmeticType
  | divisionByZero | negativeExponent _ => .invalidArithmetic

def message : Cause → String
  | duplicateVariable _ name => s!"variable {name.shown} already defined in this scope"
  | duplicateFunction _ name arity =>
    s!"function {name.shown}/{arity} already defined in this scope"
  | undefinedVariable _ name => s!"undefined variable {name.shown}"
  | undefinedFunction _ name arity => s!"undefined function {name.shown}/{arity}"
  | unknownOperator _ op => s!"unknown operator {op.text}"
  | noMain _ => "main/0 function not found"
  | unknownType name => s!"unknown type {name.shown}"
  | notAssignable target source => s!"expected {target.name}, got {source.name}"
  | mainResult => "main/0 must return Integer"
  | condition statement found => s!"{statement} condition must be Boolean, got {found.name}"
  | indexType found => s!"list index must be Integer, got {found.name}"
  | incomparableTypes left right => s!"cannot compare {left.name} with {right.name}"
  | operandType op found => s!"operator {op.text} expects Integer or Decimal, got {found.name}"
  | unsupportedLiteral value => "unsupported literal " ++ value.toJson.display
  | untypedGlobal name => s!"global {name.shown} has neither a type nor a value"
  | untypedVariable name => s!"variable {name.shown} has neither a type nor a value"
  | noDefault => "switch statement has no default case"
  | defaultWithValue => "default case has a value"
  | caseWithoutValue => "missing case value"
  | integerRange n => s!"integer literal {n} exceeds 32-bit range"
  | decimalRange d => s!"decimal literal {d.toText} is not representable"
  | notACall => "expression statement must be a function call"
  | receiverNotAccess => "assignment receiver must be a variable access"
  | emptyThen => "if statement has no then statements"
  | groupNotBinary => "grouped expression must be a binary expression"
  | immutable name => s!"cannot assign to immutable {name.shown}"
  | indexRange index length => s!"list index {index} out of range for length {length}"
  | notBoolean found => s!"expected Boolean, got {found.name}"
  | notIndexable found => s!"cannot index type {found.name}"
  | indexTag found => s!"list index must be Integer, got {found.name}"
  | targetNotAccess => "invalid assignment target"
  | incomparable left right => s!"cannot compare {left.name} with {right.name}"
  | unsupportedOperands op left right => s!"unsupported {op.text} for {left.name} and {right.name}"
  | divisionByZero => "division by zero"
  | negativeExponent n => s!"negative exponent {n}"

end Cause

/-- An error that a program makes, and the node it points at. -/
structure Problem where
  cause : Cause
  subject : Option (Node Label)
deriving Repr

/-- The walks over a tree that meet a node they have no rule for. -/
inductive Walk where
  | checkStatement | checkExpression | execute | evaluate
deriving DecidableEq, Repr

def Walk.name : Walk → String
  | .checkStatement => "check"
  | .checkExpression => "check_expr"
  | .execute => "execute"
  | .evaluate => "evaluate"

/-- What a tree from elsewhere may lack where a rule needs it. -/
inductive Unfit where
  /-- A node has no such part. -/
  | missingPart
  /-- A slot holds no list of nodes. -/
  | notAList
  /-- An array or an object stands where a name does. -/
  | notAName
  /-- A character has no text. -/
  | notAText
  /-- Two characters have no order. -/
  | unordered
deriving DecidableEq, Repr

/-- Why checking or running stops: an error of the program, or a limit of the values, the depth or
the tree it is given. -/
inductive Fault where
  | problem (p : Problem)
  | longInteger
  | decimal (signal : Decimal.Signal)
  | unexpectedNode (walk : Walk) (className : String)
  | unfit (u : Unfit)
  | tooDeep
deriving Repr

namespace Fault

/-- A problem with a part of the program. -/
def ofCause (cause : Cause) (subject : Option (Node Label)) : Fault :=
  .problem ⟨cause, subject⟩

/-- A problem whose message shows an integer; one too long to be shown is a fault of its own. -/
def ofInteger (n : Int) (cause : Int → Cause) (subject : Option (Node Label)) : Fault :=
  if (Integer.text? n).isSome then ofCause (cause n) subject else .longInteger

def message : Fault → String
  | problem p => p.cause.message
  | longInteger => Integer.longText
  | decimal .invalidOperation => "invalid operation on decimals"
  | decimal .divisionByZero => "division of a decimal by zero"
  | decimal .overflow => "decimal out of range"
  | decimal .outOfSpace => "decimal with too many digits"
  | unexpectedNode walk className =>
    s!"{walk.name}: unexpected node type <class " ++ Text.display className ++ ">"
  | unfit _ => "malformed tree"
  | tooDeep => "nested too deep"

end Fault

/-- A part that a rule needs. -/
def required {β : Type} (part : Option β) : Except Fault β :=
  match part with
  | some b => .ok b
  | none => .error (.unfit .missingPart)

/-- The nodes in a slot for a list. -/
def Node.items {α : Type} : Node α → Except Fault (List (Node α))
  | .list items => .ok items
  | _ => .error (.unfit .notAList)

/-- What tells a name apart. -/
def Json.key (name : Json) : Except Fault Key :=
  match name.key? with
  | some key => .ok key
  | none => .error (.unfit .notAName)

end PlcLang
