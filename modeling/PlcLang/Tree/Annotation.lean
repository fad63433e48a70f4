import PlcLang.Tree.Node
import PlcLang.Ty

namespace PlcLang

/-- Tells the declarations of all checks apart: the check that met one, and the label of its
node. -/
structure DeclId where
  check : Nat
  label : Label
deriving DecidableEq, Repr

/-- What the checker knows of a variable. -/
structure Binding where
  id : DeclId
  name : Json
  type : Ty
  isMutable : Bool
deriving DecidableEq, Repr

/-- What the checker knows of a function. The declaration of a built-in function is unknown. -/
structure Signature where
  id : Option DeclId
  name : Json
  parameters : List Ty
  returns : Ty
deriving DecidableEq, Repr

def Signature.arity (s : Signature) : Nat :=
  s.parameters.length

/-- What the checker found out about a node: the type of an expression, and what a name
refers to. -/
structure Annotation where
  type : Option Ty := none
  binding : Option Binding := none
  signature : Option Signature := none
deriving DecidableEq, Repr

/-- The annotations of nodes, by label. A tree that is checked again gets new ones in place. -/
abbrev Annotations := Array Annotation

namespace Annotations

/-- What is known of the node with a label; at first that is nothing. -/
def of (found : Annotations) (label : Label) : Annotation :=
  found[label]?.getD {}

end Annotations

/-- A tree together with what the checker found out about its nodes. -/
structure Annotated where
  tree : Node Label
  found : Annotations
deriving Repr

/-- Labels a tree for use beside the trees whose annotations there are. -/
def Node.annotated (n : Node Unit) (found : Annotations) : Annotated :=
  let (tree, count) := n.withLabels found.size
  ⟨tree, found ++ Array.replicate (count - found.size) {}⟩

end PlcLang
