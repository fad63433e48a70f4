import PlcLang.Problem
import PlcLang.Table

namespace PlcLang

/-- The names that one block of a program defines. Functions may share a name if they differ in
arity. -/
structure StaticBlock where
  vars : Table Key Binding := []
  functions : Table (Key × Nat) Signature := []
deriving Repr

/-- The blocks around a point of a program, nearest first. -/
structure Context where
  inner : StaticBlock
  outer : List StaticBlock
deriving Repr

namespace Context

def blocks (Γ : Context) : List StaticBlock :=
  Γ.inner :: Γ.outer

/-- A new block inside. -/
def child (Γ : Context) : Context :=
  ⟨{}, Γ.blocks⟩

/-- The variable of a name in the nearest block that has one. -/
def findVariable (Γ : Context) (key : Key) : Option Binding :=
  Γ.blocks.findSome? (·.vars.lookup key)

def findFunction (Γ : Context) (key : Key) (arity : Nat) : Option Signature :=
  Γ.blocks.findSome? (·.functions.lookup (key, arity))

/-- Defines a variable in the innermost block, unless that block has one of the name. -/
def addVariable (Γ : Context) (key : Key) (b : Binding) : Option Context :=
  if Γ.inner.vars.has key then none
  else some { Γ with inner := { Γ.inner with vars := Γ.inner.vars.put key b } }

def addFunction (Γ : Context) (key : Key) (f : Signature) : Option Context :=
  let key := (key, f.arity)
  if Γ.inner.functions.has key then none
  else some { Γ with inner := { Γ.inner with functions := Γ.inner.functions.put key f } }

end Context

end PlcLang
