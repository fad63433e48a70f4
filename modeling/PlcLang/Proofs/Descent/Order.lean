import PlcLang.Proofs.Chaining.Session
import PlcLang.Proofs.Running.Start

namespace PlcLang

/-- The functions of a program, as they stand one after another. -/
def Node.functions {α : Type} : Node α → List (Node α)
  | .source _ (.list functions) => functions
  | _ => []

/-- What a function is called by: its name, and how many parameters it has. -/
def Node.offers? {α : Type} : Node α → Option (Key × Nat)
  | .function _ name (.list parameters) _ _ => name.key?.map (·, parameters.length)
  | _ => none

/-- What a call asks for: a name, and how many arguments it has. -/
def Node.asks? {α : Type} : Node α → Option (Key × Nat)
  | .call _ name (.list arguments) => name.key?.map (·, arguments.length)
  | _ => none

def Node.isLoop {α : Type} : Node α → Bool
  | .loop .. => true
  | _ => false

/-- Of some functions a call asks for the first `bound` at most. -/
def Node.AsksBelow (functions : List (Node Label)) (bound : Nat) (n : Node Label) : Prop :=
  ∀ sign i f, n.asks? = some sign → functions[i]? = some f → f.offers? = some sign → i < bound

/-- A program without loops, no function of which calls itself directly. -/
structure Node.Straight (tree : Node Label) : Prop where
  loopless : tree.Every fun n => n.isLoop = false
  indirect : ∀ f ∈ tree.functions, f.Every fun n => n.asks? = none ∨ n.asks? ≠ f.offers?

section

variable {check : Nat} {found : Annotations} {ls : List Label} {Γ Γ' : Context}
  {functions : List (Node Label)} {sign : Key × Nat}

/-- What a checked call asks for is known where it was checked. -/
theorem Node.Traced.known {n : Node Label} (h : n.Traced Γ.findFunction found ls)
    (outer : Γ.outer = []) (asks : n.asks? = some sign) :
    Γ.inner.functions.lookup sign ≠ none := by
  cases n with
  | call label name arguments =>
    obtain ⟨-, items, key, b, rfl, isName, known, -⟩ := h
    simp only [Node.asks?, isName, Option.map_some, Option.some.injEq] at asks
    subst asks
    simp only [Context.findFunction, Context.blocks, outer, List.findSome?_cons,
      List.findSome?_nil] at known
    intro unknown
    rw [unknown] at known
    cases known
  | _ => cases asks

/-- The names of functions that are still to be defined are free. -/
theorem Defines.free (h : Defines check found ls Γ functions Γ') :
    ∀ f ∈ functions, f.offers? = some sign → Γ.inner.functions.lookup sign = none := by
  induction h with
  | nil =>
    intro f mem
    cases mem
  | cons headed returning isName added traced others ih =>
    obtain ⟨free, rfl⟩ := addFunction_eq added
    intro f mem offers
    rcases List.mem_cons.1 mem with rfl | mem
    · simp only [Node.offers?, isName, Option.map_some, Option.some.injEq] at offers
      rw [← offers, ← headerTypes_length headed]
      simpa [Signature.arity] using free
    · have later := ih f mem offers
      simp only [Table.lookup_put] at later
      split at later
      · cases later
      · exact later

/-- The code of a function asks for none of those behind it. -/
theorem Defines.asks (h : Defines check found ls Γ functions Γ') (outer : Γ.outer = []) {i : Nat}
    {f : Node Label} (here : functions[i]? = some f) :
    ∃ label name parameters returnTypeName statements,
      f = .function label name (.list parameters) returnTypeName statements ∧
        statements.Every (Node.AsksBelow functions (i + 1)) := by
  induction h generalizing i with
  | nil => cases here
  | @cons Γ Γ₁ Γ₂ label name returnTypeName key parameters rest statements header returns headed
      returning isName added traced others ih =>
    have outer' : Γ₁.outer = [] := by
      obtain ⟨-, rfl⟩ := addFunction_eq added
      exact outer
    cases i with
    | zero =>
      cases here
      refine ⟨_, _, _, _, _, rfl, Node.Every.imp (fun n call => ?_) statements traced⟩
      intro sign j g asks there offers
      refine Nat.lt_of_not_le fun behind => ?_
      obtain ⟨k, rfl⟩ := Nat.exists_eq_add_of_le' behind
      have mem : g ∈ rest := List.mem_of_getElem? there
      exact call.known outer' asks (others.free g mem offers)
    | succ i =>
      obtain ⟨_, _, _, _, statements', rfl, below⟩ := ih outer' here
      refine ⟨_, _, _, _, _, rfl, Node.Every.imp (fun n call => ?_) statements' below⟩
      intro sign j g asks there offers
      cases j with
      | zero => omega
      | succ j => exact Nat.succ_lt_succ (call sign j g asks there offers)

end

/-- In a program that the checker accepts, the values of globals ask for no function of it, and a
function asks only for itself and those before it. -/
theorem asksBelow_of_accepted {a : Annotated} (accepted : a.Accepted) :
    ∃ globals functions, a.tree = .source (.list globals) (.list functions) ∧
      Node.EveryOne (Node.AsksBelow functions 0) globals ∧
      ∀ (i : Nat) (f : Node Label), functions[i]? = some f →
        ∃ label name parameters returnTypeName statements,
          f = .function label name (.list parameters) returnTypeName statements ∧
            statements.Every (Node.AsksBelow functions (i + 1)) := by
  obtain ⟨n, known, check, Γ, tree, checked⟩ := accepted
  obtain ⟨nodup, room⟩ := n.annotated_labels known
  rw [← tree] at nodup room
  have h : (a.tree.checkProgram check []).Gives (n.annotated known).found Γ a.found := by
    rw [tree]
    exact checked
  obtain ⟨globals, functions, Γ₀, _, source, hg, hf, within, last⟩ := program_of_check h nodup room
  rw [source] at last
  have wf := within_of_checkFunctions hf
  have regular : (Context.mk .standard []).Regular :=
    .standard fun _ mem => (List.not_mem_nil mem).elim
  obtain ⟨traced, named, outer⟩ := tracedGlobals_of_check regular.regularly globals rfl hg
    (last.left wf) (List.Subset.refl _)
  have defines := defines_of_check (regular.of_functions named outer) hf last.right
    (List.Subset.refl _)
  refine ⟨globals, functions, source, ?_, fun i f here => defines.asks outer here⟩
  refine Node.EveryOne.imp (fun n call => ?_) globals traced
  intro sign i f asks there offers
  have unknown := defines.free f (List.mem_of_getElem? there) offers
  rw [named] at unknown
  exact (call.known rfl asks unknown).elim

end PlcLang
